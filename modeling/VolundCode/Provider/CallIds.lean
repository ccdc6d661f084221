import VolundCode.Provider.Parsers

/-!
# The ids of tool calls

Each tool call of a response has an id. The parsers of Anthropic and OpenAI take the ids that the
service gives. Those of Gemini and Ollama give a call without an id one of their own: the parser of
Gemini numbers these calls over the response (`starts_gemini`), and that of Ollama takes the place
of the call in its line (`starts_ollama`).

What is said of a call here is read from the frames of the body: the parsers go on from frame to
frame, and from call to call, until something is thrown.
-/

namespace Provider

open Effect Framing Js ProviderKit List

/-! ### The starts of tool uses -/

/-- The id of a tool use that starts. -/
def StreamChunk.startedId : StreamChunk → Option Value
  | .toolUseStart id _ => some id
  | _ => none

/-- The ids of the tool uses that start, in their order. -/
def startedIds (chunks : List StreamChunk) : List Value :=
  chunks.filterMap StreamChunk.startedId

/-- What is read of the frames in turn, until one of them is not read to its end. -/
def readFrames {ι : Type} (readFrame : List Char → List ι × Bool) : List (List Char) → List ι
  | [] => []
  | frame :: frames =>
    let (ids, goesOn) := readFrame frame
    if goesOn then ids ++ readFrames readFrame frames else ids

section Frames

variable {σ ι : Type} {p : StreamParser σ}

/-- What a parser does with the frames in turn, from what it does with one of them. -/
theorem frames_rel {Rel : List ι → Parsing σ → Parsing σ → Prop}
    {readFrame : List Char → List ι × Bool} (hnil : ∀ s, Rel [] s s)
    (happ : ∀ xs ys s t u, Rel xs s t → Rel ys t u → Rel (xs ++ ys) s u)
    (hframe : ∀ frame s, wp (p.frame frame)
      (fun _ t => (readFrame frame).2 ∧ Rel (readFrame frame).1 s t)
      (fun _ t => (readFrame frame).2 = false ∧ Rel (readFrame frame).1 s t) s)
    (frames : List (List Char)) (s : Parsing σ) :
  Rel (readFrames readFrame frames) s (p.frames s frames).1
  := by
  induction frames generalizing s with
  | nil => apply hnil
  | cons frame frames ih =>
  have hone := hframe frame s
  rw [wp] at hone
  rw [frames_cons, readFrames]
  cases hres : p.frame frame s with
  | ok u t =>
    rw [hres] at hone
    dsimp only
    rw [if_pos hone.1]
    apply happ _ _ s t _ hone.2 (ih t)
  | error e t =>
  rw [hres] at hone
  dsimp only
  rw [if_neg (by rw [hone.1]; exact Bool.false_ne_true)]
  exact hone.2

/-- The frames of a body that is read in these pieces. -/
def bodyFrames (p : StreamParser σ) (reads : List (List UInt8)) : List (List Char) :=
  pieces p.separator ((texts .new reads).flatMap p.normalise)

theorem startedIds_interruption (s : Parsing σ) (reason : InterruptReason) :
  startedIds (p.interruption s reason) = []
  := by
  rw [StreamParser.interruption]
  split_ifs
  · rfl
  · rfl

/-- The tool uses that start in a body are those that start in its frames. -/
theorem startedIds_parse (hsep : p.separator ≠ []) (reads : List (List UInt8)) :
  startedIds (p.parse reads) = startedIds (p.frames p.start.parsing (bodyFrames p reads)).1.chunks
  := by
  rw [parse_eq_outcome hsep, outcome, StreamParser.finish, startedIds, filterMap_append,
    ← startedIds, ← startedIds, bodyFrames]
  cases (p.frames p.start.parsing _).2 with
  | none | some e =>
    dsimp only
    rw [startedIds_interruption, append_nil]

end Frames

section Rules

variable {σ : Type} {Q : Unit → Parsing σ → Prop} {E : Thrown → Parsing σ → Prop} {s : Parsing σ}

@[simp]
theorem wp_emit {chunk : StreamChunk} :
  wp (emit chunk) Q E s ↔ Q () { s with chunks := s.chunks ++ [chunk] }
  := Iff.rfl

@[simp]
theorem wp_learn {f : σ → σ} :
  wp (learn f) Q E s ↔ Q () { s with state := f s.state }
  := Iff.rfl

@[simp]
theorem wp_known {Q : σ → Parsing σ → Prop} :
  wp known Q E s ↔ Q s.state s
  := Iff.rfl

@[simp]
theorem wp_checked {α : Type} {x : Except Thrown α} {Q : α → Parsing σ → Prop} :
  wp (checked x) Q E s ↔
    match x with
    | .ok a => Q a s
    | .error e => E e s
  := by
  cases x with
  | ok a | error e => rfl

end Rules

/-! ### Gemini -/

/-- A call has no id. -/
def isAnonymous (id : Value) : Bool :=
  match id with
  | none | some .null => true
  | some _ => false

/-- The ids of the calls of a response, where those without one are numbered from `index` on. -/
def numberCalls : ℕ → List Value → List Json
  | _, [] => []
  | index, id :: ids =>
    if isAnonymous id then .str ("gemini-call-" ++ toString index) :: numberCalls (index + 1) ids
    else orElse id .null :: numberCalls index ids

/-- The id that is given in a part, if it has a call. -/
def partIds (part : Json) : List Value :=
  let call := maybe (some part) "functionCall"
  if truthy call then [maybe call "id"] else []

/-- The ids that are given in the parts of a content, and whether all of them are read. -/
def geminiParts : List Json → List Value × Bool
  | [] => ([], true)
  | .null :: _ => ([], false)
  | part :: parts => (partIds part ++ (geminiParts parts).1, (geminiParts parts).2)

/-- The ids that are given in a body. -/
def geminiBodyIds (body : Json) : List Value × Bool :=
  let candidate := firstElement (maybe (some body) "candidates")
  match elements (orElse (maybe (maybe candidate "content") "parts") (.arr [])) with
  | .error _ => ([], false)
  | .ok parts => geminiParts parts

/-- The ids that are given in a frame. -/
def geminiIds (frame : List Char) : List Value × Bool :=
  let data := joinLines (frameData frame)
  if data = [] then ([], true)
  else
    match parseText data with
    | .error _ => ([], false)
    | .ok .null => ([], false)
    | .ok body =>
      if truthy (maybe (some body) "error") then ([], true) else geminiBodyIds body

/-- The calls with these ids have been started. -/
structure Numbered (ids : List Value) (s t : Parsing GeminiState) : Prop where
  starts : startedIds t.chunks = startedIds s.chunks ++ (numberCalls s.state.toolIndex ids).map some
  index : t.state.toolIndex = s.state.toolIndex + (ids.filter isAnonymous).length

theorem numberCalls_append (index : ℕ) (ids ids' : List Value) :
  numberCalls index (ids ++ ids') =
    numberCalls index ids ++ numberCalls (index + (ids.filter isAnonymous).length) ids'
  := by
  induction ids generalizing index with
  | nil => rfl
  | cons id ids ih =>
  rw [cons_append, numberCalls, numberCalls]
  split_ifs with hid
  · rw [ih, filter_cons_of_pos hid, length_cons, cons_append, Nat.add_right_comm, Nat.add_assoc]
  · rw [ih, filter_cons_of_neg hid, cons_append]

theorem Numbered.refl (s : Parsing GeminiState) :
  Numbered [] s s
  := by
  constructor
  · simp [numberCalls]
  · rfl

variable {s t : Parsing GeminiState}

theorem Numbered.append {ids ids' : List Value} {u : Parsing GeminiState}
    (h : Numbered ids s t) (h' : Numbered ids' t u) :
  Numbered (ids ++ ids') s u
  := by
  constructor
  · rw [h'.starts, h.starts, h.index, numberCalls_append, map_append, append_assoc]
  · rw [h'.index, h.index, filter_append, length_append, Nat.add_assoc]

/-- No tool use is started or numbered. -/
def SameCalls (s t : Parsing GeminiState) : Prop :=
  startedIds t.chunks = startedIds s.chunks ∧ t.state.toolIndex = s.state.toolIndex

theorem SameCalls.numbered {u : Parsing GeminiState} {ids : List Value} (h : SameCalls s t)
    (h' : Numbered ids t u) :
  Numbered ids s u
  := by
  constructor
  · rw [h'.starts, h.1, h.2]
  · rw [h'.index, h.2]

/-- A tool use that comes as a whole starts once. -/
theorem wholeToolUse_wp {σ : Type} (id name arguments : Value) (s : Parsing σ) :
  wp (wholeToolUse id name arguments)
    (fun _ t => startedIds t.chunks = startedIds s.chunks ++ [id] ∧ t.state = s.state)
    (fun _ _ => False) s
  := by
  simp [wholeToolUse, startedIds, StreamChunk.startedId]

theorem Numbered.same {u : Parsing GeminiState} {ids : List Value} (h : Numbered ids s t)
    (h' : SameCalls t u) :
  Numbered ids s u
  := by
  constructor
  · rw [h'.1, h.starts]
  · rw [h'.2, h.index]

theorem geminiCall_wp (call : Value) (s : Parsing GeminiState) :
  wp (geminiCall call) (fun _ t => Numbered [maybe call "id"] s t) (fun _ _ => False) s
  := by
  have whole (id name arguments : Value) (t : Parsing GeminiState) (ids : List Value)
      (h : startedIds t.chunks ++ [id] =
        startedIds s.chunks ++ (numberCalls s.state.toolIndex ids).map some)
      (hindex : t.state.toolIndex = s.state.toolIndex + (ids.filter isAnonymous).length) :
      wp (wholeToolUse id name arguments) (fun _ u => Numbered ids s u) (fun _ _ => False) t := by
    apply wp_mono (wholeToolUse_wp id name arguments t)
    · rintro _ u ⟨hstarts, hstate⟩
      exact ⟨hstarts.trans h, (congrArg GeminiState.toolIndex hstate).trans hindex⟩
    · intro _ _ hfalse
      exact hfalse
  unfold geminiCall
  cases hid : maybe call "id" with
  | none =>
    simp only [wp_bind, wp_known, wp_learn, wp_pure]
    apply whole
    · rfl
    · rfl
  | some id =>
    cases id <;> simp only [wp_bind, wp_known, wp_learn, wp_pure] <;> apply whole <;> rfl

theorem field_eq_maybe {v : Json} (h : v ≠ .null) (key : String) :
  field (some v) key = .ok (maybe (some v) key)
  := by
  cases v with
  | null => contradiction
  | _ => rfl

theorem geminiPart_wp (part : Json) (s : Parsing GeminiState) :
  wp (geminiPart part) (fun _ t => part ≠ .null ∧ Numbered (partIds part) s t)
    (fun _ t => part = .null ∧ Numbered [] s t) s
  := by
  rw [geminiPart, wp_bind, wp_checked]
  by_cases hnull : part = .null
  · subst hnull
    exact ⟨rfl, Numbered.refl s⟩
  have rest (t : Parsing GeminiState) (h : SameCalls s t) :
      wp (if truthy (maybe (some part) "functionCall") then
          geminiCall (maybe (some part) "functionCall") else pure ())
        (fun _ t => part ≠ .null ∧ Numbered (partIds part) s t)
        (fun _ t => part = .null ∧ Numbered [] s t) t := by
    rw [partIds]
    split_ifs with hcall
    · apply wp_mono (geminiCall_wp _ t)
      · intro _ u hu
        exact ⟨hnull, h.numbered hu⟩
      · intro _ _ hfalse
        contradiction
    · exact ⟨hnull, h.numbered (Numbered.refl t)⟩
  rw [field_eq_maybe hnull]
  dsimp only
  split
  · rename_i text heq
    by_cases hempty : text ≠ ""
    · rw [if_pos hempty]
      simp only [wp_bind, wp_learn, wp_emit]
      apply rest
      constructor
      · simp [startedIds, StreamChunk.startedId]
      · rfl
    · rw [if_neg hempty]
      exact rest s ⟨rfl, rfl⟩
  · exact rest s ⟨rfl, rfl⟩

theorem geminiParts_wp (parts : List Json) (s : Parsing GeminiState) :
  wp (parts.forM geminiPart)
    (fun _ t => (geminiParts parts).2 ∧ Numbered (geminiParts parts).1 s t)
    (fun _ t => (geminiParts parts).2 = false ∧ Numbered (geminiParts parts).1 s t) s
  := by
  induction parts generalizing s with
  | nil => exact ⟨rfl, Numbered.refl s⟩
  | cons part parts ih =>
  change wp (geminiPart part >>= fun _ => parts.forM geminiPart) _ _ s
  rw [wp_bind]
  apply wp_mono (geminiPart_wp part s)
  · rintro _ t ⟨hnull, ht⟩
    rw [geminiParts]
    · apply wp_mono (ih t)
      all_goals
        rintro _ u ⟨hread, hu⟩
        exact ⟨hread, ht.append hu⟩
    · exact hnull
  · rintro _ t ⟨rfl, ht⟩
    exact ⟨rfl, ht⟩

/-- The end of a frame, after its calls. -/
def geminiEnd (body : Json) : Handler GeminiState Unit := do
  let candidate := firstElement (maybe (some body) "candidates")
  let usage := maybe (some body) "usageMetadata"
  if truthy usage then
    emit
      (.usage (some (orElse (maybe usage "promptTokenCount") (number 0)))
        (some (orElse (maybe usage "candidatesTokenCount") (number 0)))
        (maybe usage "cachedContentTokenCount") none)
  let reason := maybe candidate "finishReason"
  if truthy reason then
    emit (.messageStop (geminiStopReason reason))
    learn fun s => { s with stopped := true }

/-- A frame from its calls on. -/
def geminiContent (body : Json) : Handler GeminiState Unit := do
  let candidate := firstElement (maybe (some body) "candidates")
  let parts ← checked (elements (orElse (maybe (maybe candidate "content") "parts") (.arr [])))
  parts.forM geminiPart
  geminiEnd body

theorem geminiEnd_wp (body : Json) (s : Parsing GeminiState) :
  wp (geminiEnd body) (fun _ t => SameCalls s t) (fun _ _ => False) s
  := by
  rw [geminiEnd]
  dsimp only
  by_cases husage : truthy (maybe (some body) "usageMetadata")
  · rw [if_pos husage]
    split_ifs
    all_goals simp [SameCalls, startedIds, StreamChunk.startedId]
  rw [if_neg husage]
  split_ifs
  · simp [SameCalls, startedIds, StreamChunk.startedId]
  · simp [SameCalls]

theorem geminiContent_wp (body : Json) (hst : SameCalls s t) :
  wp (geminiContent body)
    (fun _ u => (geminiBodyIds body).2 ∧ Numbered (geminiBodyIds body).1 s u)
    (fun _ u => (geminiBodyIds body).2 = false ∧ Numbered (geminiBodyIds body).1 s u) t
  := by
  rw [geminiContent, geminiBodyIds, wp_bind, wp_checked]
  cases elements (orElse (maybe (maybe (firstElement (maybe (some body) "candidates")) "content")
      "parts") (.arr [])) with
  | error e => exact ⟨rfl, hst.numbered (Numbered.refl t)⟩
  | ok parts =>
  dsimp only
  rw [wp_bind]
  apply wp_mono (geminiParts_wp parts t)
  · rintro _ u ⟨hread, hu⟩
    apply wp_mono (geminiEnd_wp body u)
    · intro _ v hv
      exact ⟨hread, (hst.numbered hu).same hv⟩
    · intro _ _ hfalse
      contradiction
  · rintro _ u ⟨hread, hu⟩
    exact ⟨hread, hst.numbered hu⟩

/-- What a frame starts. -/
theorem geminiFrame_wp (newId : Json) (frame : List Char) (s : Parsing GeminiState) :
  wp (geminiFrame newId frame)
    (fun _ t => (geminiIds frame).2 ∧ Numbered (geminiIds frame).1 s t)
    (fun _ t => (geminiIds frame).2 = false ∧ Numbered (geminiIds frame).1 s t) s
  := by
  rw [geminiFrame, geminiIds]
  dsimp only
  split_ifs with hdata
  · exact ⟨rfl, Numbered.refl s⟩
  rw [wp_bind, wp_checked]
  cases hbody : parseText (joinLines (frameData frame)) with
  | error e => exact ⟨rfl, Numbered.refl s⟩
  | ok body =>
  by_cases hnull : body = .null
  · subst hnull
    exact ⟨rfl, Numbered.refl s⟩
  simp only [wp_bind, wp_checked, field_eq_maybe hnull]
  by_cases herror : truthy (maybe (some body) "error")
  · rw [if_pos herror, if_pos herror]
    refine ⟨rfl, ?_, rfl⟩
    simp [startedIds, StreamChunk.startedId, numberCalls]
  rw [if_neg herror, if_neg herror, wp_bind, wp_known]
  by_cases hstart : (!s.state.started) = true
  · rw [if_pos hstart, wp_bind, wp_emit, wp_bind, wp_learn]
    apply geminiContent_wp body
    constructor
    · simp [startedIds, StreamChunk.startedId]
    · rfl
  · rw [if_neg hstart]
    exact geminiContent_wp body ⟨rfl, rfl⟩

/-- The ids of the tool uses that start are those that are given, and where none is given the
numbers of the calls without one. -/
theorem starts_gemini (newId : Json) (reads : List (List UInt8)) :
  startedIds (parseGeminiSse newId reads) =
    (numberCalls 0 (readFrames geminiIds (bodyFrames (geminiParser newId) reads))).map some
  := by
  have hpair : (geminiParser newId).separator ≠ [] := cons_ne_nil _ _
  have hrel := frames_rel (p := geminiParser newId) Numbered.refl
    (fun _ _ _ _ _ h h' => h.append h') (geminiFrame_wp newId)
    (bodyFrames (geminiParser newId) reads) (geminiParser newId).start.parsing
  rw [parseGeminiSse, startedIds_parse hpair, hrel.starts]
  rfl

/-! ### Ollama -/

/-- The ids of the calls of a line, where those without one have their place, and whether all of
them are read. -/
def ollamaEntries : List (Json × ℕ) → List Json × Bool
  | [] => ([], true)
  | (.null, _) :: _ => ([], false)
  | (call, index) :: calls =>
    (orElse (maybe (some call) "id") (.str ("tool-" ++ toString index)) :: (ollamaEntries calls).1,
      (ollamaEntries calls).2)

/-- The ids of the calls of a body. -/
def ollamaBodyIds (body : Json) : List Json × Bool :=
  match ollamaCalls (orElse (maybe (maybe (some body) "message") "tool_calls") (.arr [])) with
  | .error _ => ([], false)
  | .ok calls => ollamaEntries calls

/-- The ids of the calls of a line. -/
def ollamaIds (frame : List Char) : List Json × Bool :=
  let line := Json.trimmed frame
  if line = [] then ([], true)
  else
    match parseText line with
    | .error _ => ([], false)
    | .ok .null => ([], false)
    | .ok body => if truthy (maybe (some body) "error") then ([], true) else ollamaBodyIds body

/-- The calls with these ids have been started. -/
def Started (ids : List Json) (s t : Parsing OllamaState) : Prop :=
  startedIds t.chunks = startedIds s.chunks ++ ids.map some

theorem Started.refl (s : Parsing OllamaState) :
  Started [] s s
  := (append_nil _).symm

theorem Started.append {ids ids' : List Json} {s t u : Parsing OllamaState} (h : Started ids s t)
    (h' : Started ids' t u) :
  Started (ids ++ ids') s u
  := by
  rw [Started, h', h, map_append, append_assoc]

theorem ollamaCall_wp (call : Json) (index : ℕ) (s : Parsing OllamaState) :
  wp (ollamaCall (call, index))
    (fun _ t => call ≠ .null ∧
      Started [orElse (maybe (some call) "id") (.str ("tool-" ++ toString index))] s t)
    (fun _ t => call = .null ∧ Started [] s t) s
  := by
  rw [ollamaCall, wp_bind, wp_checked]
  by_cases hnull : call = .null
  · subst hnull
    exact ⟨rfl, Started.refl s⟩
  rw [field_eq_maybe hnull]
  dsimp only
  rw [wp_bind, wp_learn]
  apply wp_mono (wholeToolUse_wp _ _ _ _)
  · rintro _ t ⟨ht, -⟩
    exact ⟨hnull, ht⟩
  · intro _ _ hfalse
    contradiction

theorem ollamaEntries_wp (calls : List (Json × ℕ)) (s : Parsing OllamaState) :
  wp (calls.forM ollamaCall)
    (fun _ t => (ollamaEntries calls).2 ∧ Started (ollamaEntries calls).1 s t)
    (fun _ t => (ollamaEntries calls).2 = false ∧ Started (ollamaEntries calls).1 s t) s
  := by
  induction calls generalizing s with
  | nil => exact ⟨rfl, Started.refl s⟩
  | cons entry calls ih =>
  obtain ⟨call, index⟩ := entry
  change wp (ollamaCall (call, index) >>= fun _ => calls.forM ollamaCall) _ _ s
  rw [wp_bind]
  apply wp_mono (ollamaCall_wp call index s)
  · rintro _ t ⟨hnull, ht⟩
    rw [ollamaEntries]
    · apply wp_mono (ih t)
      all_goals
        rintro _ u ⟨hread, hu⟩
        exact ⟨hread, ht.append hu⟩
    · exact hnull
  · rintro _ t ⟨rfl, ht⟩
    exact ⟨rfl, ht⟩

/-- A line from its calls on. -/
def ollamaContent (body : Json) : Handler OllamaState Unit := do
  let calls ← checked (ollamaCalls (orElse (maybe (maybe (some body) "message") "tool_calls")
    (.arr [])))
  calls.forM ollamaCall
  if truthy (maybe (some body) "done") then ollamaDone (some body)

theorem ollamaDone_wp (value : Value) (s : Parsing OllamaState) :
  wp (ollamaDone value) (fun _ t => Started [] s t) (fun _ _ => False) s
  := by
  simp [ollamaDone, Started, startedIds, StreamChunk.startedId]

theorem ollamaContent_wp (body : Json) {s t : Parsing OllamaState} (hst : Started [] s t) :
  wp (ollamaContent body)
    (fun _ u => (ollamaBodyIds body).2 ∧ Started (ollamaBodyIds body).1 s u)
    (fun _ u => (ollamaBodyIds body).2 = false ∧ Started (ollamaBodyIds body).1 s u) t
  := by
  rw [ollamaContent, ollamaBodyIds, wp_bind, wp_checked]
  cases ollamaCalls (orElse (maybe (maybe (some body) "message") "tool_calls") (.arr [])) with
  | error e => exact ⟨rfl, hst⟩
  | ok calls =>
  dsimp only
  rw [wp_bind]
  apply wp_mono (ollamaEntries_wp calls t)
  · rintro _ u ⟨hread, hu⟩
    have hsu : Started (ollamaEntries calls).1 s u := hst.append hu
    rw [wp_ite]
    split_ifs
    · apply wp_mono (ollamaDone_wp _ u)
      · intro _ v hv
        have hsv := hsu.append hv
        rw [append_nil] at hsv
        exact ⟨hread, hsv⟩
      · intro _ _ hfalse
        contradiction
    · exact ⟨hread, hsu⟩
  · rintro _ u ⟨hread, hu⟩
    exact ⟨hread, hst.append hu⟩

/-- A line from its text on. -/
def ollamaMessage (body : Json) : Handler OllamaState Unit := do
  match maybe (maybe (some body) "message") "content" with
  | some (.str text) =>
    if text ≠ "" then
      learn fun s => { s with partialText := s.partialText ++ text }
      emit (.textDelta (some (.str text)))
  | _ => pure ()
  ollamaContent body

theorem ollamaMessage_wp (body : Json) {s t : Parsing OllamaState} (hst : Started [] s t) :
  wp (ollamaMessage body)
    (fun _ u => (ollamaBodyIds body).2 ∧ Started (ollamaBodyIds body).1 s u)
    (fun _ u => (ollamaBodyIds body).2 = false ∧ Started (ollamaBodyIds body).1 s u) t
  := by
  rw [ollamaMessage]
  split
  · rename_i text heq
    by_cases hempty : text ≠ ""
    · rw [if_pos hempty, wp_bind, wp_learn, wp_bind, wp_emit]
      apply ollamaContent_wp body
      rw [Started] at hst ⊢
      rw [← hst]
      simp [startedIds, StreamChunk.startedId]
    · rw [if_neg hempty]
      exact ollamaContent_wp body hst
  · exact ollamaContent_wp body hst

/-- What a line starts. -/
theorem ollamaLine_wp (newId : Json) (frame : List Char) (s : Parsing OllamaState) :
  wp (ollamaLine newId frame)
    (fun _ t => (ollamaIds frame).2 ∧ Started (ollamaIds frame).1 s t)
    (fun _ t => (ollamaIds frame).2 = false ∧ Started (ollamaIds frame).1 s t) s
  := by
  rw [ollamaLine, ollamaIds]
  dsimp only
  split_ifs with hline
  · exact ⟨rfl, Started.refl s⟩
  rw [wp_bind, wp_checked]
  cases hbody : parseText (Json.trimmed frame) with
  | error e => exact ⟨rfl, Started.refl s⟩
  | ok body =>
  by_cases hnull : body = .null
  · subst hnull
    exact ⟨rfl, Started.refl s⟩
  simp only [wp_bind, wp_checked, field_eq_maybe hnull]
  by_cases herror : truthy (maybe (some body) "error")
  · rw [if_pos herror, if_pos herror]
    refine ⟨rfl, ?_⟩
    simp [Started, startedIds, StreamChunk.startedId]
  rw [if_neg herror, if_neg herror, wp_bind, wp_known]
  by_cases hstart : (!s.state.started) = true
  · rw [if_pos hstart, wp_bind, wp_emit, wp_bind, wp_learn]
    apply ollamaMessage_wp body
    simp [Started, startedIds, StreamChunk.startedId]
  · rw [if_neg hstart]
    exact ollamaMessage_wp body (Started.refl s)

/-- The ids of the tool uses that start are those that are given, and where none is given the
places of the calls in their lines. -/
theorem starts_ollama (newId : Json) (reads : List (List UInt8)) :
  startedIds (parseOllamaNdjson newId reads) =
    (readFrames ollamaIds (bodyFrames (ollamaParser newId) reads)).map some
  := by
  have hline : (ollamaParser newId).separator ≠ [] := cons_ne_nil _ _
  have hrel := frames_rel (p := ollamaParser newId) Started.refl
    (fun _ _ _ _ _ h h' => h.append h') (ollamaLine_wp newId)
    (bodyFrames (ollamaParser newId) reads) (ollamaParser newId).start.parsing
  rw [parseOllamaNdjson, startedIds_parse hline, hrel]
  rfl

end Provider
