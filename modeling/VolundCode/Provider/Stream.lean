import VolundCode.Lib.Dynamic
import VolundCode.Lib.Framing
import VolundCode.Lib.JsonSpacing
import VolundCode.Lib.TextDecoder
import VolundCode.ProviderKit.Message

/-!
# Streams of providers

The parsers of the four providers read the bytes of a body in the pieces in which they come, decode
them, end every line with a line feed, and take the frames out of a buffer that end with the
separator. They differ in what a frame means. The parser of a body is a function of the text it
decodes (`parse_eq_outcome`), and the text does not depend on the pieces as long as none of them
ends between a carriage return and its line feed (`flatMap_crlf`). The signal is not aborted.
-/

namespace Provider

open Framing Js ProviderKit List

/-! ### Chunks -/

/-- What a stream is interrupted by: its end, its end inside of a frame, or what is thrown. -/
inductive InterruptReason where
  | streamEnded
  | incompleteFrame (name : String)
  | thrown (error : Thrown)

/-- A `ProviderChunk`, with the values as they come from the provider. The error of the provider is
given by its status and its body. -/
inductive StreamChunk where
  | messageStart (messageId : Value)
  | textDelta (text : Value)
  | thinkingDelta (text : Value) (signature : Value)
  | toolUseStart (id name : Value)
  | toolUseDelta (id : Value) (argsFragment : Value)
  | toolUseEnd (id : Value)
  | usage (input output : Value) (cacheRead cacheWrite : Value)
  | messageStop (stopReason : StopReason)
  | messageInterrupted (reason : InterruptReason) (text : String) (toolUseIds : List Value)
  | error (status : Value) (body : Json)

/-! ### Parsers -/

/-- What a parser knows in `state`, and what it has emitted. -/
structure Parsing (σ : Type) where
  state : σ
  chunks : List StreamChunk

/-- What a parser does, until something is thrown. -/
abbrev Handler (σ α : Type) := Effect Thrown (Parsing σ) α

variable {σ α : Type}

/-- `yield chunk`. -/
def emit (chunk : StreamChunk) : Handler σ Unit :=
  modify fun s => { s with chunks := s.chunks ++ [chunk] }

/-- What the parser knows. -/
def known : Handler σ σ := do
  let s ← get
  return s.state

/-- What the parser knows changes. -/
def learn (f : σ → σ) : Handler σ Unit :=
  modify fun s => { s with state := f s.state }

/-- A value, unless it throws to take it. -/
def checked (x : Except Thrown α) : Handler σ α :=
  Effect.ofExcept x

/-- A parser of streams. -/
structure StreamParser (σ : Type) where
  /-- What is done with a decoded text before it enters the buffer. -/
  normalise : List Char → List Char
  separator : List Char
  initial : σ
  frame : List Char → Handler σ Unit
  stopped : σ → Bool
  partialText : σ → String
  toolUseIds : σ → List Value
  /-- The reason of an interruption with something left in the buffer. -/
  incomplete : String

/-- What a parser has read: the decoder, the buffer, what it has made of it, and what it has thrown
on it. -/
structure Reading (σ : Type) where
  decoder : Utf8.TextDecoder
  buffer : List Char
  parsing : Parsing σ
  thrown : Option Thrown

namespace StreamParser

variable (p : StreamParser σ)

/-- The frames in turn, until something is thrown. -/
def frames (s : Parsing σ) (frames : List (List Char)) : Parsing σ × Option Thrown :=
  match (frames.forM p.frame : Handler σ Unit) s with
  | .ok _ t => (t, none)
  | .error e t => (t, some e)

/-- A parser at the start of a body. -/
def start : Reading σ where
  decoder := .new
  buffer := []
  parsing := { state := p.initial, chunks := [] }
  thrown := none

/-- What is read once. -/
def read (r : Reading σ) (bytes : List UInt8) : Reading σ :=
  if r.thrown.isSome then r
  else
    let decoded := r.decoder.decode bytes
    let cut := Framing.frames p.separator [] (r.buffer ++ p.normalise decoded.1)
    let result := p.frames r.parsing cut.1
    { decoder := decoded.2, buffer := cut.2, parsing := result.1, thrown := result.2 }

/-- The interruption of a stream that has not been stopped. -/
def interruption (s : Parsing σ) (reason : InterruptReason) : List StreamChunk :=
  if p.stopped s.state then []
  else [.messageInterrupted reason (p.partialText s.state) (p.toolUseIds s.state)]

/-- The end of the body, or what follows what has been thrown. -/
def finish (r : Reading σ) : List StreamChunk :=
  r.parsing.chunks ++
    match r.thrown with
    | some error => p.interruption r.parsing (.thrown error)
    | none =>
      let buffer := r.buffer ++ r.decoder.finish
      p.interruption r.parsing
        (if Json.trimmed buffer = [] then .streamEnded else .incompleteFrame p.incomplete)

/-- The chunks of a body that is read in these pieces. -/
def parse (reads : List (List UInt8)) : List StreamChunk :=
  p.finish (reads.foldl p.read p.start)

end StreamParser

/-- `text.replace(/\r\n/g, '\n')`. -/
def crlf : List Char → List Char
  | '\r' :: '\n' :: s => '\n' :: crlf s
  | c :: s => c :: crlf s
  | [] => []

/-! ### The text of a body -/

/-- The texts that a decoder makes of pieces in turn. -/
def texts (decoder : Utf8.TextDecoder) : List (List UInt8) → List (List Char)
  | [] => []
  | bytes :: reads => (decoder.decode bytes).1 :: texts (decoder.decode bytes).2 reads

theorem texts_flatten (decoder : Utf8.TextDecoder) (reads : List (List UInt8)) :
  (texts decoder reads).flatten = (decoder.decode reads.flatten).1
  := by
  induction reads generalizing decoder with
  | nil =>
    rw [texts, flatten_nil, flatten_nil, Utf8.TextDecoder.decode, Utf8.scan]
    simp [Utf8.TextDecoder.emit, Utf8.lossy, Utf8.dropMark]
  | cons bytes reads ih => rw [texts, flatten_cons, ih, flatten_cons, Utf8.decode_append]

theorem decode_flatten (decoder : Utf8.TextDecoder) (as bs : List UInt8) :
  (decoder.decode (as ++ bs)).2 = ((decoder.decode as).2.decode bs).2
  := by
  rw [Utf8.decode_append]

section Outcome

variable (p : StreamParser σ)

/-- The chunks of a body by its text, after the parser has normalised it, and by its bytes. -/
def outcome (text : List Char) (bytes : List UInt8) : List StreamChunk :=
  let result := p.frames p.start.parsing (pieces p.separator text)
  p.finish
    { decoder := (Utf8.TextDecoder.new.decode bytes).2
      buffer := rest p.separator text
      parsing := result.1
      thrown := result.2 }

variable {p}

theorem frames_cons (s : Parsing σ) (f : List Char) (fs : List (List Char)) :
  p.frames s (f :: fs) =
    match p.frame f s with
    | .ok _ t => p.frames t fs
    | .error e t => (t, some e)
  := by
  unfold StreamParser.frames
  change (match EStateM.bind (p.frame f) (fun _ => fs.forM p.frame) s with
    | .ok _ t => (t, none)
    | .error e t => (t, some e)) = _
  unfold EStateM.bind
  cases p.frame f s with
  | ok u t | error e t => rfl

/-- Frames in two parts are read in two parts, unless something is thrown on the first. -/
theorem frames_append (s : Parsing σ) (fs gs : List (List Char)) :
  p.frames s (fs ++ gs) =
    match (p.frames s fs).2 with
    | none => p.frames (p.frames s fs).1 gs
    | some e => ((p.frames s fs).1, some e)
  := by
  induction fs generalizing s with
  | nil => rfl
  | cons f fs ih =>
  rw [cons_append, frames_cons, frames_cons]
  cases p.frame f s with
  | ok u t => apply ih
  | error e t => rfl

/-- What has been read is what the text stands for, and unless something has been thrown, the decoder
and the buffer are those of the bytes and the text that have come. -/
structure Reading.Of (p : StreamParser σ) (r : Reading σ) (text : List Char)
    (bytes : List UInt8) : Prop where
  result : (r.parsing, r.thrown) = p.frames p.start.parsing (pieces p.separator text)
  decoder : r.thrown = none → r.decoder = (Utf8.TextDecoder.new.decode bytes).2
  buffer : r.thrown = none → r.buffer = rest p.separator text

theorem Reading.Of.read (hsep : p.separator ≠ []) {r : Reading σ} {text : List Char}
    {past : List UInt8} (h : Reading.Of p r text past) (bytes : List UInt8) :
  Reading.Of p (p.read r bytes)
    (text ++ p.normalise ((Utf8.TextDecoder.new.decode past).2.decode bytes).1) (past ++ bytes)
  := by
  generalize hnext : p.normalise ((Utf8.TextDecoder.new.decode past).2.decode bytes).1 = next
  have hframes : p.frames p.start.parsing (pieces p.separator (text ++ next)) =
      match r.thrown with
      | none => p.frames r.parsing (pieces p.separator (rest p.separator text ++ next))
      | some e => (r.parsing, some e) := by
    rw [pieces_append hsep, frames_append, ← h.result]
  cases hthrow : r.thrown with
  | some e =>
    have hsame : p.read r bytes = r := by
      rw [StreamParser.read, hthrow]
      rfl
    rw [hthrow] at hframes
    rw [hsame]
    constructor
    · rw [hframes, hthrow]
    all_goals
      intro hnone
      rw [hthrow] at hnone
      cases hnone
  | none =>
  rw [hthrow] at hframes
  have hread : p.read r bytes =
      { decoder := ((Utf8.TextDecoder.new.decode past).2.decode bytes).2
        buffer := rest p.separator (rest p.separator text ++ next)
        parsing := (p.frames r.parsing
          (pieces p.separator (rest p.separator text ++ next))).1
        thrown := (p.frames r.parsing
          (pieces p.separator (rest p.separator text ++ next))).2 } := by
    rw [StreamParser.read, hthrow, h.decoder hthrow, h.buffer hthrow]
    dsimp only
    rw [hnext]
    rfl
  rw [hread]
  constructor
  · rw [hframes]
  · intro _
    rw [decode_flatten]
  · intro _
    exact (rest_append hsep text next).symm

/-- The chunks of a body depend on its text, as the parser normalises it piece by piece, and on its
bytes. -/
theorem parse_eq_outcome (hsep : p.separator ≠ []) (reads : List (List UInt8)) :
  p.parse reads = outcome p ((texts .new reads).flatMap p.normalise) reads.flatten
  := by
  have hreads : ∀ (reads : List (List UInt8)) (r : Reading σ) (text : List Char)
      (past : List UInt8), Reading.Of p r text past →
      Reading.Of p (reads.foldl p.read r)
        (text ++ (texts (Utf8.TextDecoder.new.decode past).2 reads).flatMap p.normalise)
        (past ++ reads.flatten) := by
    intro reads
    induction reads with
    | nil =>
      intro r text past h
      simpa [texts] using h
    | cons bytes reads ih =>
    intro r text past h
    have hrest := ih _ _ _ (h.read hsep bytes)
    rw [decode_flatten] at hrest
    rw [foldl_cons, texts, flatMap_cons, flatten_cons, ← append_assoc, ← append_assoc]
    apply hrest
  have hstart : Reading.Of p p.start [] [] := by
    constructor
    · rfl
    all_goals
      intro _
      rfl
  have hend := hreads reads p.start [] [] hstart
  rw [nil_append, nil_append] at hend
  have hnew : (Utf8.TextDecoder.new.decode []).2 = .new := rfl
  rw [hnew] at hend
  generalize (texts .new reads).flatMap p.normalise = text at hend ⊢
  generalize hr : reads.foldl p.read p.start = r at hend
  unfold StreamParser.parse outcome
  rw [hr]
  dsimp only
  rw [← hend.result]
  unfold StreamParser.finish
  dsimp only
  cases hthrow : r.thrown with
  | some e => rfl
  | none => rw [hend.decoder hthrow, hend.buffer hthrow]

end Outcome

/-! ### Line ends -/

theorem crlf_cons {c : Char} {s : List Char} (h : c ≠ '\r' ∨ s.head? ≠ some '\n') :
  crlf (c :: s) = c :: crlf s
  := by
  rw [crlf.eq_def]
  split
  · rename_i heq
    obtain ⟨rfl, rfl⟩ := List.cons.inj heq
    rcases h with h | h
    all_goals exact absurd rfl h
  · rename_i heq
    obtain ⟨rfl, rfl⟩ := List.cons.inj heq
    rfl
  · next heq => cases heq

/-- Texts that do not meet in a line end are normalised apart. -/
theorem crlf_append {s t : List Char} (h : s.getLast? ≠ some '\r' ∨ t.head? ≠ some '\n') :
  crlf (s ++ t) = crlf s ++ crlf t
  := by
  induction s using crlf.induct with
  | case1 s ih =>
    rw [cons_append, cons_append, crlf, crlf, cons_append, ih]
    cases s with
    | nil =>
      left
      simp
    | cons c s => simpa using h
  | case2 c s hne ih =>
    have hleft : c ≠ '\r' ∨ s.head? ≠ some '\n' := by
      by_contra hboth
      simp only [not_or, not_not] at hboth
      cases s with
      | nil => simp at hboth
      | cons d s =>
        apply hne s hboth.1
        rw [Option.some.inj hboth.2]
    have hwhole : c ≠ '\r' ∨ (s ++ t).head? ≠ some '\n' := by
      cases s with
      | nil => simpa using h
      | cons d s => simpa using hleft
    rw [cons_append, crlf_cons hwhole, crlf_cons hleft, ih, cons_append]
    cases s with
    | nil =>
      left
      simp
    | cons d s => simpa using h
  | case3 => rfl

/-- Texts that do not end between a carriage return and its line feed are normalised as the whole. -/
theorem flatMap_crlf {ts : List (List Char)} (h : ∀ n, ¬ ((ts.take n).flatten.getLast? = some '\r' ∧
      (ts.drop n).flatten.head? = some '\n')) :
  ts.flatMap crlf = crlf ts.flatten
  := by
  induction ts with
  | nil => rfl
  | cons t ts ih =>
  have hhead : t.getLast? ≠ some '\r' ∨ ts.flatten.head? ≠ some '\n' := by
    have hone := h 1
    rw [← not_and_or]
    simpa using hone
  rw [flatMap_cons, flatten_cons, crlf_append hhead, ih]
  rintro n ⟨hlast, hnext⟩
  apply h (n + 1)
  simp only [take_succ_cons, flatten_cons, drop_succ_cons, List.getLast?_append, hlast, hnext]
  simp

/-- No piece ends between a carriage return and its line feed. -/
def Unsplit (reads : List (List UInt8)) : Prop :=
  ∀ n, ¬ (((texts .new reads).take n).flatten.getLast? = some '\r' ∧
    ((texts .new reads).drop n).flatten.head? = some '\n')

/-- Where there are no carriage returns, no piece ends behind one. -/
theorem unsplit_of_notMem {reads : List (List UInt8)}
    (h : '\r' ∉ (Utf8.TextDecoder.new.decode reads.flatten).1) :
  Unsplit reads
  := by
  rintro n ⟨hlast, -⟩
  apply h
  rw [← texts_flatten, ← take_append_drop n (texts .new reads), flatten_append]
  apply mem_append_left
  apply mem_of_getLast? hlast

variable {p : StreamParser σ} {as bs : List (List UInt8)}

/-- A parser that does not normalise emits the same chunks for all pieces of a body. -/
theorem parse_eq_of_id (hsep : p.separator ≠ []) (hid : p.normalise = fun text => text)
    (hbytes : as.flatten = bs.flatten) :
  p.parse as = p.parse bs
  := by
  have htext : ∀ reads : List (List UInt8), (texts .new reads).flatMap p.normalise =
      (Utf8.TextDecoder.new.decode reads.flatten).1 := by
    intro reads
    rw [hid, flatMap_id', texts_flatten]
  rw [parse_eq_outcome hsep, parse_eq_outcome hsep, htext, htext, hbytes]

/-- A parser that normalises line ends emits the same chunks for all pieces of a body that do not
end between a carriage return and its line feed. -/
theorem parse_eq_of_unsplit (hsep : p.separator ≠ []) (hcrlf : p.normalise = crlf)
    (hbytes : as.flatten = bs.flatten) (has : Unsplit as) (hbs : Unsplit bs) :
  p.parse as = p.parse bs
  := by
  have htext : ∀ reads : List (List UInt8), Unsplit reads → (texts .new reads).flatMap p.normalise =
        crlf (Utf8.TextDecoder.new.decode reads.flatten).1 := by
    intro reads hreads
    rw [hcrlf, flatMap_crlf hreads, texts_flatten]
  rw [parse_eq_outcome hsep, parse_eq_outcome hsep, htext as has, htext bs hbs, hbytes]

end Provider
