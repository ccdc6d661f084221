import VolundCode.Client.SessionStream
import VolundCode.Lib.Sorting

/-!
# The timeline of the web client

The messages and the cards of a session are shown in one list, in the order of their positions. An
envelope that adds one takes the next position, and so does an echo of what the user sends. When the
transcript of the session is there, it is merged into what is shown: it comes first, and then what it
does not know of, all with new positions.

Whatever comes, the positions are different, an envelope moves nothing that is there, and a
transcript keeps the order of what it does not know of and changes nothing the second time
(`timeline_stable`).
-/

namespace Client.SessionStream

open Sorting List

/-! ### What is shown -/

/-- A message or a card. -/
inductive Item where
  | message (message : ChatMessage)
  | tool (card : ToolCard)
  deriving DecidableEq

namespace Item

def message? : Item → Option ChatMessage
  | message m => some m
  | tool _ => none

def tool? : Item → Option ToolCard
  | message _ => none
  | tool card => some card

def isMessage : Item → Bool
  | message _ => true
  | tool _ => false

def seq : Item → ℕ
  | message m => m.seq
  | tool card => card.seq

/-- Whether it is a message, and its id. -/
def key : Item → Bool × String
  | message m => (true, m.id)
  | tool card => (false, card.toolUseId)

/-- The item at another position. -/
def place (seq : ℕ) : Item → Item
  | message m => message { m with seq := seq }
  | tool card => tool { card with seq := seq }

/-- The order of the positions. -/
def le (a b : Item) : Bool :=
  a.seq ≤ b.seq

end Item

/-- The messages and the cards of a state. -/
def ChatState.items (state : ChatState) : List Item :=
  state.messages.map .message ++ state.tools.map .tool

/-- `chatFeed`. -/
def chatFeed (state : ChatState) : List Item :=
  state.items.mergeSort Item.le

/-! ### Transcripts -/

structure Attachment where
  chip : Option String
  kind : Option String
  handle : Option String

structure TranscriptEntry where
  id : Option String
  role : Option Role
  text : Option String
  kind : Option String
  tool : Option String
  input : Json
  status : Option String
  attachments : List Attachment

/-- The texts that are made of the input of a tool, and of a text with the chips of images in it. -/
structure TranscriptTexts where
  toolTargetLabel : String → Json → Option String
  toolBodyLabel : String → Json → Option String
  taskSummaryOf : Json → Option TaskSummary
  plain : String → List String → String

/-- The chip and the handle of an image. -/
def Attachment.image (attachment : Attachment) : Option (String × String) :=
  if attachment.kind = some "image" then
    match attachment.chip, attachment.handle with
    | some chip, some handle => some (chip, handle)
    | _, _ => none
  else none

/-- What is shown of an entry. -/
def TranscriptEntry.parse (texts : TranscriptTexts) (entry : TranscriptEntry) : Option Item :=
  match entry.id with
  | none => none
  | some id =>
    if id = "" then none
    else if entry.kind = some "tool" then
      match entry.tool with
      | none => none
      | some tool =>
        some <| .tool
          { toolUseId := id
            tool := tool
            status :=
              if entry.status = some "error" then .error
              else if entry.status = some "running" then .running
              else .done
            seq := 0
            turnId := none
            task := if tool = "Task" then texts.taskSummaryOf entry.input else none
            target := texts.toolTargetLabel tool entry.input
            body := texts.toolBodyLabel tool entry.input
            linesAdded := none
            linesRemoved := none }
    else
      match entry.role, entry.text with
      | some role, some text =>
        if text = "" then none
        else
          let images := entry.attachments.filterMap Attachment.image
          some (.message ⟨id, role, texts.plain text (images.map Prod.fst), false,
            images.map Prod.snd, false, 0⟩)
      | _, _ => none

/-- What is shown of a card of a transcript is what is known of its call, and what is missing. -/
def ToolCard.withLive (card live : ToolCard) : ToolCard :=
  { live with
    task := live.task.or card.task
    target := live.target.or card.target
    body := live.body.or card.body
    turnId := live.turnId.or card.turnId
    linesAdded := live.linesAdded.or card.linesAdded
    linesRemoved := live.linesRemoved.or card.linesRemoved }

/-- An item of a transcript where some cards are known. Of cards with the same id the last counts. -/
def Item.withLive (tools : List ToolCard) : Item → Item
  | .message m => .message m
  | .tool card =>
    match tools.reverse.find? fun live => live.toolUseId = card.toolUseId with
    | none => .tool card
    | some live => .tool (card.withLive live)

/-- The item is not in a transcript, and is not an echo. -/
def Item.absent (parsed : List Item) (item : Item) : Bool :=
  (item.message?.all fun message => !message.isLocal) && item.key ∉ parsed.map key

/-- The positions are given in order. -/
def renumber (next : ℕ) : List Item → List Item
  | [] => []
  | item :: items => item.place next :: renumber (next + 1) items

/-- The items of a transcript, and what it does not know of in the order in which it was. -/
def merged (state : ChatState) (parsed : List Item) : List Item :=
  parsed.map (Item.withLive state.tools) ++
    (state.items.filter (Item.absent parsed)).mergeSort Item.le

/-- The action `hydrate`. -/
def hydrate (texts : TranscriptTexts) (state : ChatState) (transcript : List TranscriptEntry) :
    ChatState :=
  let items := merged state (transcript.filterMap (TranscriptEntry.parse texts))
  { state with
    messages := (renumber 1 items).filterMap Item.message?
    tools := (renumber 1 items).filterMap Item.tool?
    nextSeq := items.length + 1 }

/-- The action `echo`. -/
def echo (state : ChatState) (now : ℕ) (text : String) (images : List String) : ChatState :=
  { state with
    nextSeq := state.nextSeq + 1
    messages := state.messages ++
      [⟨"local-" ++ toString now, .user, text, false, images, true, state.nextSeq⟩] }

inductive StreamAction where
  | envelope (e : Envelope)
  | echo (now : ℕ) (text : String) (images : List String)
  | hydrate (transcript : List TranscriptEntry)

/-- `reduceChatState`. -/
def reduceChatState (texts : Texts) (texts' : TranscriptTexts) (state : ChatState) :
    StreamAction → ChatState
  | .envelope e => reduceEnvelope texts state e
  | .echo now text images => SessionStream.echo state now text images
  | .hydrate transcript => SessionStream.hydrate texts' state transcript

/-! ### What holds of every timeline -/

/-- The positions are different, and the next one is beyond them. -/
def ChatState.Ordered (state : ChatState) : Prop :=
  (state.items.map Item.seq).Nodup ∧ ∀ item ∈ state.items, item.seq < state.nextSeq

/-- Of ids and positions, an id that was there before has a position that it had. -/
def Stays (old new : List (String × ℕ)) : Prop :=
  ∀ key ∈ new, key.1 ∈ old.map Prod.fst → key ∈ old

/-- The messages and the cards that were there before have the positions they had. -/
def Steady (state state' : ChatState) : Prop :=
  Stays (state.messages.map ChatMessage.key) (state'.messages.map ChatMessage.key) ∧
    Stays (state.tools.map ToolCard.key) (state'.tools.map ToolCard.key)

/-- What a transcript does not know of is shown in the order in which it was. -/
def KeepsOrder (texts : TranscriptTexts) (state : ChatState)
    (transcript : List TranscriptEntry) : Prop :=
  let absent := Item.absent (transcript.filterMap (TranscriptEntry.parse texts))
  ((chatFeed (hydrate texts state transcript)).filter absent).map Item.key =
    ((chatFeed state).filter absent).map Item.key

/-- A transcript of entries with different ids changes nothing the second time. -/
def HydratesOnce (texts : TranscriptTexts) (state : ChatState)
    (transcript : List TranscriptEntry) : Prop :=
  (transcript.filterMap TranscriptEntry.id).Nodup →
    hydrate texts (hydrate texts state transcript) transcript = hydrate texts state transcript

/-! ### Envelopes and echoes -/

variable {state state' : ChatState}

/-- The positions of the messages and of the cards. -/
theorem map_seq_items (state : ChatState) :
  state.items.map Item.seq = (state.messages.map ChatMessage.key).map Prod.snd ++
      (state.tools.map ToolCard.key).map Prod.snd
  := by
  rw [ChatState.items, map_append, map_map, map_map, map_map, map_map]
  rfl

/-- The positions are those of a list of numbers. -/
theorem ordered_iff (state : ChatState) :
  state.Ordered ↔
    (state.items.map Item.seq).Nodup ∧ ∀ n ∈ state.items.map Item.seq, n < state.nextSeq
  := by rw [ChatState.Ordered, forall_mem_map]

/-- Positions of which some go, and the next one may be taken. -/
theorem ordered_of_sublist {ns ns' : List ℕ} {next : ℕ} (h : ns.Nodup ∧ ∀ n ∈ ns, n < next)
    (hsub : ns' <+ ns) :
  ns'.Nodup ∧ ∀ n ∈ ns', n < next
  := ⟨h.1.sublist hsub, fun n hn => h.2 n (hsub.subset hn)⟩

theorem ordered_of_perm {ns ns' : List ℕ} {next : ℕ} (h : ns.Nodup ∧ ∀ n ∈ ns, n < next)
    (hperm : ns'.Perm (next :: ns)) :
  ns'.Nodup ∧ ∀ n ∈ ns', n < next + 1
  := by
  rw [hperm.nodup_iff, nodup_cons]
  refine ⟨⟨fun hmem => lt_irrefl next (h.2 next hmem), h.1⟩, ?_⟩
  intro n hn
  rcases mem_cons.mp (hperm.mem_iff.mp hn) with rfl | hn
  · exact Nat.lt_succ_self n
  · exact Nat.lt_succ_of_lt (h.2 n hn)

/-- An envelope keeps the positions different. -/
theorem Moves.ordered (hmoves : Moves state state') (h : state.Ordered) :
  state'.Ordered
  := by
  rw [ordered_iff, map_seq_items] at h ⊢
  cases hmoves with
  | cleared hmsgs htools hnext =>
    rw [hmsgs, htools]
    exact ⟨nodup_nil, forall_mem_nil _⟩
  | kept hmsgs htools hnext =>
    rw [htools, hnext]
    exact ordered_of_sublist h ((hmsgs.map _).append_right _)
  | said id base hnew hbase hmsgs htools hnext =>
    rw [hmsgs, htools, hnext]
    apply ordered_of_perm (ordered_of_sublist h (((hbase.map _).map Prod.snd).append_right _))
    rw [map_append, append_assoc]
    exact perm_middle
  | called id hnew hmsgs htools hnext =>
  rw [hmsgs, htools, hnext]
  apply ordered_of_perm h
  rw [map_append, ← append_assoc]
  exact perm_append_singleton _ _

/-- An echo keeps the positions different. -/
theorem ordered_echo (h : state.Ordered) (now : ℕ) (text : String) (images : List String) :
  (echo state now text images).Ordered
  := by
  rw [ordered_iff, map_seq_items] at h ⊢
  apply ordered_of_perm h
  simp only [echo, map_append, append_assoc]
  exact perm_middle

theorem Stays.of_subset {old new : List (String × ℕ)} (h : new ⊆ old) :
  Stays old new
  := fun _ hkey _ => h hkey

/-- What is added has a new id. -/
theorem Stays.concat {old base : List (String × ℕ)} {id : String} (hbase : base ⊆ old)
    (hnew : id ∉ old.map Prod.fst) (seq : ℕ) :
  Stays old (base ++ [(id, seq)])
  := by
  intro key hkey hold
  rcases mem_append.mp hkey with hkey | hkey
  · exact hbase hkey
  · obtain rfl := mem_singleton.mp hkey
    exact absurd hold hnew

/-- An envelope keeps the positions. -/
theorem Moves.steady (hmoves : Moves state state') :
  Steady state state'
  := by
  cases hmoves with
  | cleared hmsgs htools hnext =>
    rw [Steady, hmsgs, htools]
    exact ⟨.of_subset (nil_subset _), .of_subset (nil_subset _)⟩
  | kept hmsgs htools hnext =>
    rw [Steady, htools]
    exact ⟨.of_subset hmsgs.subset, .of_subset (Subset.refl _)⟩
  | said id base hnew hbase hmsgs htools hnext =>
    rw [Steady, hmsgs, htools]
    refine ⟨.concat (hbase.map _).subset ?_ _, .of_subset (Subset.refl _)⟩
    simpa [ChatMessage.key] using hnew
  | called id hnew hmsgs htools hnext =>
    rw [Steady, hmsgs, htools]
    refine ⟨.of_subset (Subset.refl _), .concat (Subset.refl _) ?_ _⟩
    simpa [ToolCard.key] using hnew
/-! ### Transcripts and what was there -/

section Place

variable (next : ℕ) (item : Item)

@[simp]
theorem seq_place :
  (item.place next).seq = next
  := by cases item <;> rfl

@[simp]
theorem key_place :
  (item.place next).key = item.key
  := by cases item <;> rfl

@[simp]
theorem place_place (next' : ℕ) :
  (item.place next).place next' = item.place next'
  := by cases item <;> rfl

@[simp]
theorem absent_place (parsed : List Item) :
  (item.place next).absent parsed = item.absent parsed
  := by cases item <;> rfl

@[simp]
theorem key_withLive (tools : List ToolCard) :
  (item.withLive tools).key = item.key
  := by
  cases item with
  | message m => rfl
  | tool card =>
  rw [Item.withLive]
  cases hfind : tools.reverse.find? fun live => live.toolUseId = card.toolUseId with
  | none => rfl
  | some live =>
    have hid := find?_some hfind
    exact congrArg (Prod.mk false) (of_decide_eq_true hid)

end Place

variable {items items' parsed : List Item} {next : ℕ}

/-- What is chosen and taken of items does not depend on their positions. -/
theorem filter_renumber {β : Type} {f : Item → β} {p : Item → Bool}
    (hf : ∀ n item, f (Item.place n item) = f item) (hp : ∀ n item, p (Item.place n item) = p item) :
  ((renumber next items).filter p).map f = (items.filter p).map f
  := by
  induction items generalizing next with
  | nil => rfl
  | cons item items ih =>
  rw [renumber, filter_cons, filter_cons, hp]
  split_ifs
  · rw [map_cons, map_cons, hf, ih]
  · exact ih

theorem map_place_renumber (next : ℕ) (items : List Item) :
  (renumber next items).map (Item.place 0) = items.map (Item.place 0)
  := by
  have h : ((renumber next items).filter fun _ => true).map (Item.place 0) =
      (items.filter fun _ => true).map (Item.place 0) :=
    filter_renumber (fun n item => place_place n item 0) fun _ _ => rfl
  rw [filter_true, filter_true] at h
  exact h

/-- Items that differ in their positions only are renumbered to the same. -/
theorem renumber_congr (h : items.map (Item.place 0) = items'.map (Item.place 0)) :
  renumber next items = renumber next items'
  := by
  induction items generalizing next items' with
  | nil =>
    obtain rfl := map_eq_nil_iff.mp h.symm
    rfl
  | cons item items ih =>
    obtain ⟨item', rest, rfl, hitem, hrest⟩ := map_eq_cons_iff.mp h.symm
    rw [renumber, renumber, ih hrest.symm, ← place_place 0 item, ← place_place 0 item', hitem]

theorem map_seq_renumber :
  (renumber next items).map Item.seq = range' next items.length
  := by
  induction items generalizing next with
  | nil => rfl
  | cons item items ih => rw [renumber, map_cons, seq_place, ih, length_cons, range'_succ]

/-- The messages and the cards of a list of items. -/
theorem perm_split (items : List Item) :
  ((items.filterMap Item.message?).map Item.message ++
    (items.filterMap Item.tool?).map Item.tool).Perm items
  := by
  induction items with
  | nil => exact .nil
  | cons item items ih =>
    cases item with
    | message m => exact ih.cons _
    | tool card => exact perm_middle.trans (ih.cons _)

theorem comparison_le :
  Comparison Item.le
  := by
  constructor
  · intro a b c hab hbc
    exact decide_eq_true ((of_decide_eq_true hab).trans (of_decide_eq_true hbc))
  · intro a b
    simpa [Item.le] using Nat.le_total a.seq b.seq

/-- Items with different positions are ordered by them. -/
theorem untied_of_nodup (h : (items.map Item.seq).Nodup) :
  Untied Item.le items
  := by
  apply (pairwise_map.mp h).imp
  rintro a b hne ⟨hab, hba⟩
  exact hne (Nat.le_antisymm (of_decide_eq_true hab) (of_decide_eq_true hba))

/-- What is chosen of the sorted items. -/
theorem filter_mergeSort (h : (items.map Item.seq).Nodup) (p : Item → Bool) :
  (items.mergeSort Item.le).filter p = (items.filter p).mergeSort Item.le
  := by
  have hperm := (mergeSort_perm items Item.le).filter p
  have hsorted := (comparison_le.pairwise items).filter p
  rw [← sort_eq_of_perm comparison_le _ hperm, mergeSort_of_pairwise hsorted]
  exact ((untied_of_nodup h).perm (mergeSort_perm _ _).symm).sublist filter_sublist

variable {texts : Texts} {texts' : TranscriptTexts} {transcript : List TranscriptEntry}

/-- The positions after a transcript. -/
theorem ordered_hydrate (texts : TranscriptTexts) (state : ChatState)
    (transcript : List TranscriptEntry) :
  (hydrate texts state transcript).Ordered
  := by
  rw [ordered_iff]
  have hperm := (perm_split (renumber 1
    (merged state (transcript.filterMap (TranscriptEntry.parse texts))))).map Item.seq
  rw [map_seq_renumber] at hperm
  constructor
  · exact hperm.nodup_iff.mpr nodup_range'
  · intro n hn
    have hn := mem_range'_1.mp (hperm.mem_iff.mp hn)
    exact hn.2.trans_eq (Nat.add_comm 1 _)

/-- What is shown after a transcript. -/
theorem chatFeed_hydrate (texts : TranscriptTexts) (state : ChatState)
    (transcript : List TranscriptEntry) :
  chatFeed (hydrate texts state transcript) =
    renumber 1 (merged state (transcript.filterMap (TranscriptEntry.parse texts)))
  := by
  have hord := ordered_hydrate texts state transcript
  rw [chatFeed, sort_eq_of_perm comparison_le (untied_of_nodup hord.1) (perm_split _)]
  apply mergeSort_of_pairwise
  have hascending := pairwise_lt_range' (s := 1) (n := (merged state (transcript.filterMap
    (TranscriptEntry.parse texts))).length)
  rw [← map_seq_renumber] at hascending
  apply (pairwise_map.mp hascending).imp
  exact fun hlt => decide_eq_true hlt.le

/-- What is in a transcript is not absent from it. -/
theorem filter_withLive (parsed : List Item) (tools : List ToolCard) :
  (parsed.map (Item.withLive tools)).filter (Item.absent parsed) = []
  := by
  rw [filter_eq_nil_iff]
  intro item hitem
  obtain ⟨old, hold, rfl⟩ := mem_map.mp hitem
  simp [Item.absent, mem_map_of_mem (f := Item.key) hold]

/-- What a transcript does not know of comes after it. -/
theorem filter_merged (h : state.Ordered) (parsed : List Item) :
  (merged state parsed).filter (Item.absent parsed) = (chatFeed state).filter (Item.absent parsed)
  := by
  rw [merged, filter_append, filter_withLive, nil_append, ← filter_mergeSort h.1, filter_filter]
  simp only [Bool.and_self]
  rfl

/-- A transcript keeps the order of what it does not know of. -/
theorem keepsOrder (h : state.Ordered) (texts : TranscriptTexts)
    (transcript : List TranscriptEntry) :
  KeepsOrder texts state transcript
  := by
  rw [KeepsOrder, chatFeed_hydrate, filter_renumber key_place, filter_merged h]
  exact fun n item => absent_place n item _

/-! ### The same transcript twice -/

/-- An entry that is shown has the id of what is shown of it. -/
theorem id_of_parse {entry : TranscriptEntry} {item : Item} (h : entry.parse texts' = some item) :
  entry.id = some item.key.2
  := by
  rw [TranscriptEntry.parse] at h
  split at h
  · cases h
  next id hid =>
    rw [hid]
    repeat' split at h
    all_goals cases h
    all_goals rfl

/-- Entries with different ids show different items. -/
theorem eq_of_key_eq (h : (transcript.filterMap TranscriptEntry.id).Nodup) {a b : Item}
    (ha : a ∈ transcript.filterMap (TranscriptEntry.parse texts'))
    (hb : b ∈ transcript.filterMap (TranscriptEntry.parse texts')) (hkey : a.key = b.key) :
  a = b
  := by
  obtain ⟨entry, hentry, ha⟩ := mem_filterMap.mp ha
  obtain ⟨entry', hentry', hb⟩ := mem_filterMap.mp hb
  have hsame : entry = entry' := by
    by_contra hne
    have : Std.Symm fun a b : TranscriptEntry =>
        ∀ x, a.id = some x → ∀ y, b.id = some y → x ≠ y :=
      ⟨fun _ _ hxy x hx y hy => (hxy y hy x hx).symm⟩
    exact (pairwise_filterMap.mp h).forall hentry hentry' hne _ (id_of_parse ha) _ (id_of_parse hb)
      (congrArg Prod.snd hkey)
  subst hsame
  exact Option.some.inj (ha.symm.trans hb)

/-- The card of a call where the one that it has become is known, up to its position. -/
theorem place_withLive {card live : ToolCard} {tools : List ToolCard}
    (h : (Item.tool live).place 0 = ((Item.tool card).withLive tools).place 0) :
  (Item.tool (card.withLive live)).place 0 = ((Item.tool card).withLive tools).place 0
  := by
  rw [Item.withLive] at h ⊢
  generalize (tools.reverse.find? fun live => live.toolUseId = card.toolUseId) = found at h ⊢
  obtain ⟨⟩ := live
  cases found with
  | none | some old =>
    simp only [Item.place, ToolCard.withLive, Item.tool.injEq, ToolCard.mk.injEq] at h
    simp [Item.place, ToolCard.withLive, h, Option.or_assoc]

/-- An item of a transcript is made again of the card that it has become. -/
theorem place_withLive_hydrate (h : (transcript.filterMap TranscriptEntry.id).Nodup) {item : Item}
    (hitem : item ∈ transcript.filterMap (TranscriptEntry.parse texts')) :
  (item.withLive (hydrate texts' state transcript).tools).place 0 =
    (item.withLive state.tools).place 0
  := by
  have hplaced := map_place_renumber 1
    (merged state (transcript.filterMap (TranscriptEntry.parse texts')))
  -- Every card with the id of the item is the one that the item has become.
  have hcard : ∀ live ∈ (hydrate texts' state transcript).tools, (Item.tool live).key = item.key →
      (Item.tool live).place 0 = (item.withLive state.tools).place 0 := by
    intro live hlive hkey
    obtain ⟨item', hitem', htool⟩ := mem_filterMap.mp hlive
    obtain rfl : item' = .tool live := by
      cases item' with
      | message m => cases htool
      | tool card => rw [Option.some.inj htool]
    have hmem := mem_map_of_mem (f := Item.place 0) hitem'
    rw [hplaced] at hmem
    obtain ⟨source, hsrc, heq⟩ := mem_map.mp hmem
    have hsourceKey : source.key = item.key := by
      rw [← key_place 0 source, heq, key_place, hkey]
    rcases mem_append.mp hsrc with hsrc | hsrc
    · obtain ⟨old, hold, rfl⟩ := mem_map.mp hsrc
      rw [key_withLive] at hsourceKey
      rw [← heq, eq_of_key_eq h hold hitem hsourceKey]
    · have habsent := (mem_filter.mp (mem_mergeSort.mp hsrc)).2
      simp [Item.absent, hsourceKey, mem_map_of_mem (f := Item.key) hitem] at habsent
  cases item with
  | message m => rfl
  | tool card =>
  rw [Item.withLive]
  cases hfind : (hydrate texts' state transcript).tools.reverse.find? fun live =>
      live.toolUseId = card.toolUseId with
  | none =>
    have hbecome : ((Item.tool card).withLive state.tools).place 0 ∈
        (merged state (transcript.filterMap (TranscriptEntry.parse texts'))).map
          (Item.place 0) :=
      mem_map_of_mem (mem_append_left _ (mem_map_of_mem hitem))
    rw [← hplaced] at hbecome
    obtain ⟨item', hitem', heq⟩ := mem_map.mp hbecome
    have hkey : item'.key = (Item.tool card).key := by
      rw [← key_place 0 item', heq, key_place, key_withLive]
    cases item' with
    | message m => cases hkey
    | tool live =>
    have hlive : live ∈ (hydrate texts' state transcript).tools :=
      mem_filterMap.mpr ⟨_, hitem', rfl⟩
    have hnone := find?_eq_none.mp hfind live (mem_reverse.mpr hlive)
    exact absurd (decide_eq_true (congrArg Prod.snd hkey)) hnone
  | some live =>
  apply place_withLive
  apply hcard live (mem_reverse.mp (mem_of_find?_eq_some hfind))
  have hid := find?_some hfind
  exact congrArg (Prod.mk false) (of_decide_eq_true hid)

/-- A transcript changes nothing the second time. -/
theorem hydratesOnce (h : state.Ordered) (texts : TranscriptTexts)
    (transcript : List TranscriptEntry) :
  HydratesOnce texts state transcript
  := by
  intro hdist
  have hextras : ∀ s : ChatState, s.Ordered → (s.items.filter (Item.absent (transcript.filterMap
        (TranscriptEntry.parse texts)))).mergeSort Item.le =
        (chatFeed s).filter (Item.absent (transcript.filterMap (TranscriptEntry.parse texts))) :=
    fun s hs => (filter_mergeSort hs.1 _).symm
  have hitems : (merged (hydrate texts state transcript)
        (transcript.filterMap (TranscriptEntry.parse texts))).map (Item.place 0) =
      (merged state (transcript.filterMap (TranscriptEntry.parse texts))).map (Item.place 0) := by
    rw [merged, merged, map_append, map_append, map_map, map_map]
    congr 1
    · apply map_congr_left
      intro item hitem
      exact place_withLive_hydrate hdist hitem
    · rw [hextras _ (ordered_hydrate texts state transcript), hextras _ h, chatFeed_hydrate,
        filter_renumber (fun n item => place_place n item 0) (fun n item => absent_place n item _),
        filter_merged h]
  have hlen := congrArg length hitems
  rw [length_map, length_map] at hlen
  rw [hydrate, renumber_congr hitems, hlen]
  rfl

/-! ### Runs -/

/-- The state after a list of actions. -/
def reduce (texts : Texts) (texts' : TranscriptTexts) (actions : List StreamAction) : ChatState :=
  actions.foldl (reduceChatState texts texts') initialChatState

/-- The positions are different after a list of actions. -/
theorem ordered_reduce (texts : Texts) (texts' : TranscriptTexts) (actions : List StreamAction) :
  (reduce texts texts' actions).Ordered
  := by
  induction actions using List.reverseRecOn with
  | nil => exact ⟨nodup_nil, forall_mem_nil _⟩
  | append_singleton actions action ih =>
  rw [reduce, foldl_concat]
  cases action with
  | envelope e => exact (moves_reduceEnvelope texts _ e).ordered ih
  | echo now text images => exact ordered_echo ih now text images
  | hydrate transcript => exact ordered_hydrate texts' _ transcript

/-- After any list of envelopes, echoes and transcripts the positions are different and below the
next one, an envelope moves nothing that is there, and a transcript keeps the order of what it does
not know of and changes nothing the second time. -/
theorem timeline_stable (texts : Texts) (texts' : TranscriptTexts) (actions : List StreamAction) :
  (reduce texts texts' actions).Ordered ∧ (∀ e, Steady (reduce texts texts' actions)
      (reduceEnvelope texts (reduce texts texts' actions) e)) ∧
    ∀ transcript, KeepsOrder texts' (reduce texts texts' actions) transcript ∧
      HydratesOnce texts' (reduce texts texts' actions) transcript
  := by
  have hord := ordered_reduce texts texts' actions
  use hord
  constructor
  · intro e
    exact (moves_reduceEnvelope texts _ e).steady
  · intro transcript
    exact ⟨keepsOrder hord texts' transcript, hydratesOnce hord texts' transcript⟩

end Client.SessionStream
