import VolundCode.Lib.Splitting

/-!
# POSIX paths

Absolute paths whose segments are not empty, `.` or `..`, and how paths are resolved to them. The
way from one such path to another one begins with two points unless the other one is below it
(`prefix_of_relative`).
-/

namespace PosixPath

/-- A segment that is neither empty nor `.` or `..`. -/
def IsPlain (segment : List Char) : Prop :=
  segment ≠ [] ∧ '/' ∉ segment ∧ segment ≠ ['.'] ∧ segment ≠ ['.', '.']

instance (segment : List Char) : Decidable (IsPlain segment) :=
  inferInstanceAs (Decidable (_ ∧ _))

/-- An absolute path of plain segments. -/
structure Absolute where
  segments : List (List Char)
  plain : ∀ segment ∈ segments, IsPlain segment
deriving DecidableEq

/-- The text of a path. -/
def Absolute.text (p : Absolute) : List Char :=
  '/' :: ['/'].intercalate p.segments

/-- `dirname`. -/
def Absolute.parent (p : Absolute) : Absolute where
  segments := p.segments.dropLast
  plain _ h := p.plain _ (List.mem_of_mem_dropLast h)

/-- The path a segment leads to. -/
def Absolute.enter (p : Absolute) (segment : List Char) : Absolute :=
  if h : IsPlain segment then
    { segments := p.segments ++ [segment]
      plain := by
        intro s hs
        rcases List.mem_append.mp hs with hs | hs
        · apply p.plain s hs
        · rw [List.mem_singleton.mp hs]
          apply h }
  else if segment = ['.', '.'] then p.parent else p

def root : Absolute where
  segments := []
  plain := by simp

def isAbsolute (path : List Char) : Bool :=
  path.head? = some '/'

/-- `resolve(base, path)`. -/
def resolve (base : Absolute) (path : List Char) : Absolute :=
  (path.splitOn '/').foldl Absolute.enter (if isAbsolute path then root else base)

/-- The number of segments at the beginning that two lists share. -/
def shared : List (List Char) → List (List Char) → ℕ
  | s :: ss, t :: ts => if s = t then shared ss ts + 1 else 0
  | _, _ => 0

/-- `relative(p, q)`. -/
def relative (p q : Absolute) : List Char :=
  let common := shared p.segments q.segments
  ['/'].intercalate
    (List.replicate (p.segments.length - common) ['.', '.'] ++ q.segments.drop common)

/-- The last segment of a path; separators behind it are passed over. -/
def basename (path : List Char) : List Char :=
  ((path.splitOn '/').filter fun segment => segment ≠ []).getLast?.getD []

/-- The part of a name from its last point on, unless the point is the first character or the name
is `..`. -/
def extname (path : List Char) : List Char :=
  let name := basename path
  let extension := name.reverse.takeWhile (· ≠ '.')
  match name.reverse.dropWhile (· ≠ '.') with
  | _ :: _ :: _ => if name = ['.', '.'] then [] else '.' :: extension.reverse
  | _ => []

theorem shared_le (ss ts : List (List Char)) :
  shared ss ts ≤ ss.length
  := by
  induction ss, ts using shared.induct with
  | case1 ss s ts ih =>
    rw [shared, if_pos rfl, List.length_cons]
    omega
  | case2 s ss t ts hne =>
    rw [shared, if_neg hne]
    exact Nat.zero_le _
  | case3 ss ts hne =>
    rw [shared]
    · exact Nat.zero_le _
    · apply hne

/-- Where all segments are shared the other list begins with them. -/
theorem prefix_of_shared {ss ts : List (List Char)} (h : shared ss ts = ss.length) :
  ss <+: ts
  := by
  induction ss, ts using shared.induct with
  | case1 ss s ts ih =>
    rw [shared, if_pos rfl, List.length_cons] at h
    apply (List.prefix_cons_inj s).mpr
    apply ih
    omega
  | case2 s ss t ts hne =>
    rw [shared, if_neg hne] at h
    simp at h
  | case3 ss ts hne =>
  rw [shared] at h
  · rw [List.length_eq_zero_iff.mp h.symm]
    apply List.nil_prefix
  · apply hne

/-- The way to a path that is not below begins with two points. -/
theorem prefix_of_relative {p q : Absolute} (h : ¬ ['.', '.'] <+: relative p q) :
  p.segments <+: q.segments
  := by
  apply prefix_of_shared
  have hle := shared_le p.segments q.segments
  by_contra hne
  apply h
  obtain ⟨n, hn⟩ : ∃ n, p.segments.length - shared p.segments q.segments = n + 1 :=
    Nat.exists_eq_succ_of_ne_zero (by omega)
  simp only [relative, hn, List.replicate_succ, List.cons_append]
  generalize List.replicate n ['.', '.'] ++ q.segments.drop (shared p.segments q.segments) = rest
  cases rest with
  | nil => simp
  | cons s rest =>
    rw [Splitting.intercalate_cons_cons]
    simp

end PosixPath
