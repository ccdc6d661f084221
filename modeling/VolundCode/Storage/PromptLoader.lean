import VolundCode.Lib.Ecma
import VolundCode.Lib.Effect
import VolundCode.Lib.Occurrences
import VolundCode.Lib.PosixPath

/-!
# The prompt loader

A prompt file may include other files. The loader expands it: it looks at the name of a file,
finds out its canonical path, asks for permission unless it is the first file, reads it, and
expands what its lines include.

An expansion comes to an end, reads at most `maxIncludes` files, nests at most `maxDepth` levels and
does not expand a file within itself. Every file that it reads is a Markdown file that is not
sensitive, below the working directory or the home of the program, for every way to load files from
a tree, exactly when the links of the tree lead from names of such files only to such files
(`confinesAll_iff`): whether a file is Markdown and not sensitive is decided by the name it is
included by, and not by its canonical path.
-/

namespace Storage.Prompts

open Effect PosixPath List

abbrev Text : Type := List Char

/-! ### Files and options -/

/-- What there is to read at a canonical path. -/
inductive FileRead where
  | fails
  | notFile
  | text (s : Text)

/-- The files: the working directory, the home of the user, where links lead, the canonical path
of the home of the program once it has been made, and what is in the files. -/
structure PromptTree where
  cwd : Absolute
  homedir : Absolute
  realpath : Text → Option Absolute
  volundHome : Option Absolute
  read : Absolute → FileRead

structure PermissionRequest where
  toolName : String
  read : List Absolute
  path : Absolute
  sessionId : String
  cwd : Absolute
  attempt : ℕ

/-- The limits, and the kinds of the decisions on the requests of a load; a request without one
fails. -/
structure PromptOptions where
  maxDepth : Option ℕ := none
  maxIncludes : Option ℕ := none
  request : ℕ → PermissionRequest → Option String

def PromptOptions.depthLimit (options : PromptOptions) : ℕ :=
  options.maxDepth.getD 8

def PromptOptions.includeLimit (options : PromptOptions) : ℕ :=
  options.maxIncludes.getD 64

/-- A file has been read, or the expansion of the last one is done. -/
inductive Event where
  | opened (path : Absolute)
  | closed

/-- The number of includes and of requests so far, and what has been read. -/
structure LoaderState where
  count : ℕ
  requests : ℕ
  events : List Event

/-- Why a load fails; it is exhausted if it has not come to its end. -/
inductive LoadError where
  | exhausted
  | cwd
  | volundHome
  | request
  | read
  | notFile
deriving DecidableEq

abbrev Load : Type → Type := Effect LoadError LoaderState

/-! ### Names of files -/

def lower (s : Text) : Text :=
  s.map Char.toLower

/-- `extname(path).toLowerCase() === '.md'`. -/
def isMd (path : Text) : Bool :=
  lower (extname path) = ".md".toList

def sensitive (path : Text) : Bool :=
  let portablePath := path.map fun c => if c = '\\' then '/' else c
  let name := lower ((portablePath.splitOn '/').getLast?.getD [])
  ".env".toList.isPrefixOf name || "credentials".toList.isPrefixOf name ||
    "auth".toList.isPrefixOf name ||
    ("id_".toList.isPrefixOf name && decide (3 < name.length)) ||
    ".pem".toList.isSuffixOf name || ".key".toList.isSuffixOf name ||
    decide ("/.ssh/".toList <:+: portablePath)

/-- The path is a root or below it, and its way from the root does not begin with two points. -/
def insideRoot (root canonical : Absolute) : Bool :=
  let rel := relative root canonical
  rel = [] || !(['.', '.'].isPrefixOf rel || isAbsolute rel)

/-! ### Lines of files -/

/-- The text without the front matter it begins with. -/
def withoutFrontmatter (text : Text) : Text :=
  if "---\n".toList <+: text then
    match Occurrences.cut "\n---\n".toList (text.drop 4) with
    | some (_, after) => after
    | none => text
  else text

/-- Whether `.` in a regular expression does not match the character. -/
def isTerminator (c : Char) : Bool :=
  c = '\n' || c = '\r' || c = '\u2028' || c = '\u2029'

/-- The name that a line includes: `/^@include ([^#\s]+)(?:\s+#.*)?$/`. -/
def includedBy (line : Text) : Option Text :=
  if "@include ".toList <+: line then
    let rest := line.drop 9
    let name := rest.takeWhile fun c => c ≠ '#' && !Ecma.isSpace c
    let behind := rest.drop name.length
    if name = [] then none
    else if behind = [] then some name
    else
      match behind.takeWhile Ecma.isSpace, behind.dropWhile Ecma.isSpace with
      | _ :: _, '#' :: comment => if comment.any isTerminator then none else some name
      | _, _ => none
  else none

example : includedBy "@include notes.md # why".toList = some "notes.md".toList := by decide

def denied (path : Text) (reason : String) : Text :=
  "<!-- include: ".toList ++ path ++ " — DENIED (".toList ++ reason.toList ++ ") -->".toList

def notFound (path : Text) : Text :=
  "<!-- include: ".toList ++ path ++ " — ERROR (not found) -->".toList

/-- What a line that includes a file becomes. -/
def included (name : Text) (depth : ℕ) (body : Text) : Text :=
  "<!-- include: ".toList ++ name ++ " depth=".toList ++ Nat.toDigits 10 depth ++ " -->\n".toList ++
    body ++ "\n<!-- /include ".toList ++ name ++ " -->".toList

/-! ### Expansion -/

variable (tree : PromptTree) (options : PromptOptions)

/-- The path that is looked for. -/
def targetOf (path : Text) : Text :=
  if isAbsolute path then path else (resolve tree.cwd path).text

/-- The path that a file includes. -/
def childOf (canonical : Absolute) (name : Text) : Text :=
  if "~/".toList <+: name then (resolve tree.homedir (name.drop 2)).text
  else (resolve canonical.parent name).text

/-- The decision on a request for permission to read a file. -/
def decisionOn (cwd canonical : Absolute) : Load String := do
  let s ← get
  modify fun s => { s with requests := s.requests + 1 }
  match options.request s.requests
      { toolName := "Read"
        read := [canonical]
        path := canonical
        sessionId := "prompt-loader"
        cwd := cwd
        attempt := 1 } with
  | some kind => pure kind
  | none => throw .request

/-- The decision on a file; one that is not included needs none. -/
def decided (cwd canonical : Absolute) (depth : ℕ) : Load String :=
  if 0 < depth then decisionOn options cwd canonical else pure ""

/-- A line of a file, or what it includes where it is not in a fenced block. -/
def expandLine (expandChild : Text → Load Text) (canonical : Absolute) (depth : ℕ) (fenced : Bool)
    (line : Text) : Load Text :=
  if fenced then pure line
  else
    match includedBy line with
    | none => pure line
    | some name => do
      let body ← expandChild (childOf tree canonical name)
      pure (included name (depth + 1) body)

/-- The lines of a file with what they include. -/
def expandLines (expandChild : Text → Load Text) (canonical : Absolute) (depth : ℕ) :
    Bool → List Text → Load (List Text)
  | _, [] => pure []
  | fenced, line :: lines => do
    let fenced := if "```".toList <+: line then !fenced else fenced
    let line ← expandLine tree expandChild canonical depth fenced line
    let lines ← expandLines expandChild canonical depth fenced lines
    pure (line :: lines)

/-- A file is read and its includes are expanded. -/
def expandFile (expandChild : Text → Load Text) (canonical : Absolute) (depth : ℕ) : Load Text :=
  match tree.read canonical with
  | .fails => throw .read
  | .notFile => throw .notFile
  | .text text => do
    modify fun s => { s with events := s.events ++ [.opened canonical] }
    let lines ← expandLines tree expandChild canonical depth false
      ((withoutFrontmatter text).splitOn '\n')
    modify fun s => { s with events := s.events ++ [.closed] }
    pure (['\n'].intercalate lines)

/-- A file whose canonical path is known is expanded, if it is inside the roots and not within
itself. -/
def expandCanonical (expandChild : Text → Load Text) (path : Text) (canonical : Absolute)
    (depth : ℕ) (seen : List Absolute) : Load Text :=
  match tree.realpath tree.cwd.text with
  | none => throw .cwd
  | some cwd =>
    match tree.volundHome with
    | none => throw .volundHome
    | some home => do
      if !(insideRoot cwd canonical || insideRoot home canonical) then
        pure (denied path "outside roots")
      else if canonical ∈ seen then pure (denied path "cycle")
      else do
        let kind ← decided options cwd canonical depth
        if Ecma.startsWith kind "deny" then pure (denied path "permission")
        else expandFile tree expandChild canonical depth

/-- `expand`, with at most `n` files within each other. -/
def expand : ℕ → Text → ℕ → List Absolute → Load Text
  | 0, _, _, _ => throw .exhausted
  | n + 1, path, depth, seen =>
    if options.depthLimit < depth then pure (denied path "depth")
    else do
      let s ← get
      modify fun s => { s with count := s.count + 1 }
      if options.includeLimit ≤ s.count then pure (denied path "limit")
      else if !isMd path then pure (denied path "non-md")
      else if sensitive path then pure (denied path "sensitive")
      else
        match tree.realpath (targetOf tree path) with
        | none => pure (notFound path)
        | some canonical =>
          expandCanonical tree options
            (fun child => expand n child (depth + 1) (canonical :: seen)) path canonical depth seen

/-- `load(path)`. -/
def load (n : ℕ) (path : Text) : EStateM.Result LoadError LoaderState Text :=
  expand tree options n path 0 [] ⟨0, 0, []⟩

/-! ### What a load should do -/

/-- The files that are being expanded. -/
def stack (events : List Event) : List Absolute :=
  events.foldl (fun within event =>
    match event with
    | .opened path => path :: within
    | .closed => within.tail) []

/-- How many files have been read. -/
def reads (events : List Event) : ℕ :=
  events.countP fun event =>
    match event with
    | .opened _ => true
    | .closed => false

/-- A Markdown file that is not sensitive. -/
def Admissible (path : Absolute) : Prop :=
  isMd path.text ∧ sensitive path.text = false

/-- The path is the canonical working directory or home of the program, or below one of them. -/
def Below (path : Absolute) : Prop :=
  ∃ root, (tree.realpath tree.cwd.text = some root ∨ tree.volundHome = some root) ∧
    root.segments <+: path.segments

/-- The files that have been read are as many as they may be, are not within each other too deep or
within themselves, and every one is admissible and below a root. -/
structure Confined (events : List Event) : Prop where
  width : reads events ≤ options.includeLimit
  files : ∀ before path after, events = before ++ .opened path :: after →
    path ∉ stack before ∧ (stack before).length ≤ options.depthLimit ∧ Admissible path ∧
      Below tree path

/-- The state that a load leaves. -/
def stateOf (result : EStateM.Result LoadError LoaderState Text) : LoaderState :=
  match result with
  | .ok _ s => s
  | .error _ s => s

/-- Every load from the tree comes to its end and is confined. -/
def ConfinesAll : Prop :=
  ∀ options : PromptOptions, ∀ path n, options.depthLimit + 1 < n →
    (∀ s, load tree options n path ≠ .error .exhausted s) ∧
      Confined tree options (stateOf (load tree options n path)).events

/-- Where the name of a Markdown file that is not sensitive leads to a file that can be read, within
the roots, that file is one too. -/
def Honest : Prop :=
  ∀ path canonical text, isMd path → sensitive path = false →
    tree.realpath (targetOf tree path) = some canonical → tree.read canonical = .text text →
      (∃ cwd home, tree.realpath tree.cwd.text = some cwd ∧ tree.volundHome = some home ∧
        (insideRoot cwd canonical ∨ insideRoot home canonical)) → Admissible canonical

/-! ### What has been read -/

variable {tree options}
variable {events : List Event} {path canonical : Absolute} {seen : List Absolute} {s : LoaderState}

@[simp]
theorem stack_opened :
  stack (events ++ [.opened path]) = path :: stack events
  := by
  rw [stack, foldl_concat]
  rfl

@[simp]
theorem stack_closed :
  stack (events ++ [.closed]) = (stack events).tail
  := by
  rw [stack, foldl_concat]
  rfl

@[simp]
theorem reads_opened :
  reads (events ++ [.opened path]) = reads events + 1
  := by
  simp [reads]

@[simp]
theorem reads_closed :
  reads (events ++ [.closed]) = reads events
  := by
  simp [reads]

theorem confined_nil :
  Confined tree options []
  := by
  constructor
  · exact Nat.zero_le _
  · intro before path after h
    simp at h

theorem Confined.opened (h : Confined tree options events)
    (hwidth : reads events < options.includeLimit) (hdepth : (stack events).length ≤ options.depthLimit)
    (hseen : path ∉ stack events) (hadm : Admissible path) (hbelow : Below tree path) :
  Confined tree options (events ++ [.opened path])
  := by
  constructor
  · rw [reads_opened]
    apply hwidth
  intro before p after heq
  rcases eq_nil_or_concat after with rfl | ⟨after, event, rfl⟩
  · obtain ⟨rfl, hlast⟩ := append_inj' heq rfl
    obtain rfl : path = p := by simpa using hlast
    exact ⟨hseen, hdepth, hadm, hbelow⟩
  have hpre : events = before ++ .opened p :: after := by
    rw [concat_eq_append, ← cons_append, ← append_assoc] at heq
    apply (append_inj' heq rfl).1
  apply h.files before p after hpre

theorem Confined.closed (h : Confined tree options events) :
  Confined tree options (events ++ [.closed])
  := by
  constructor
  · rw [reads_closed]
    apply h.width
  intro before p after heq
  rcases eq_nil_or_concat after with rfl | ⟨after, event, rfl⟩
  · have hlast := (append_inj' heq rfl).2
    simp at hlast
  have hpre : events = before ++ .opened p :: after := by
    rw [concat_eq_append, ← cons_append, ← append_assoc] at heq
    apply (append_inj' heq rfl).1
  apply h.files before p after hpre

/-- A canonical path inside a root is below it. -/
theorem prefix_of_insideRoot {root : Absolute} (h : insideRoot root canonical) :
  root.segments <+: canonical.segments
  := by
  apply prefix_of_relative
  intro hdots
  simp only [insideRoot, Bool.or_eq_true, decide_eq_true_eq, Bool.not_eq_true'] at h
  rcases h with hnil | hnot
  · rw [hnil] at hdots
    simp at hdots
  · rw [List.isPrefixOf_iff_prefix.mpr hdots] at hnot
    simp at hnot

/-! ### What an expansion does -/

/-- The load is confined so far, and the files that are being expanded are `seen`. -/
structure Inside (tree : PromptTree) (options : PromptOptions) (seen : List Absolute)
    (s : LoaderState) : Prop where
  confined : Confined tree options s.events
  stack : stack s.events = seen
  reads : reads s.events ≤ s.count

/-- How an expansion may fail. -/
def Failed (tree : PromptTree) (options : PromptOptions) (e : LoadError) (s : LoaderState) : Prop :=
  e ≠ .exhausted ∧ Confined tree options s.events

section Lines

variable {expandChild : Text → Load Text} {I : LoaderState → Prop}
variable {E : LoadError → LoaderState → Prop} {depth : ℕ} {fenced : Bool}

theorem expandLine_wp (hchild : ∀ child s, I s → wp (expandChild child) (fun _ => I) E s)
    {line : Text} (hs : I s) :
  wp (expandLine tree expandChild canonical depth fenced line) (fun _ => I) E s
  := by
  rw [expandLine, wp_ite]
  split_ifs
  · apply hs
  cases includedBy line with
  | none => apply hs
  | some name =>
  rw [wp_bind]
  apply wp_mono (hchild _ s hs)
  all_goals
    intro _ t ht
    apply ht

/-- What the children of a file keep, its lines keep. -/
theorem expandLines_wp (hchild : ∀ child s, I s → wp (expandChild child) (fun _ => I) E s)
    {lines : List Text} (hs : I s) :
  wp (expandLines tree expandChild canonical depth fenced lines) (fun _ => I) E s
  := by
  induction lines generalizing fenced s with
  | nil => apply hs
  | cons line lines ih =>
  rw [expandLines, wp_bind]
  apply wp_mono (expandLine_wp hchild hs)
  · intro _ t ht
    rw [wp_bind]
    apply wp_mono (ih ht)
    all_goals
      intro _ u hu
      apply hu
  · intro _ t ht
    apply ht

end Lines

variable {depth : ℕ}

/-- A file that may be read is expanded, if its children are. -/
theorem expandFile_wp {expandChild : Text → Load Text}
    (hs : Inside tree options seen s) (hcount : reads s.events < s.count)
    (hwidth : s.count ≤ options.includeLimit)
    (hdepth : seen.length ≤ options.depthLimit) (hseen : canonical ∉ seen)
    (hadm : ∀ text, tree.read canonical = .text text → Admissible canonical)
    (hbelow : Below tree canonical) (hchild : ∀ child s, Inside tree options (canonical :: seen) s →
      wp (expandChild child) (fun _ => Inside tree options (canonical :: seen))
        (Failed tree options) s) :
  wp (expandFile tree expandChild canonical depth) (fun _ => Inside tree options seen)
    (Failed tree options) s
  := by
  rw [expandFile]
  cases hread : tree.read canonical with
  | fails | notFile => exact ⟨by decide, hs.confined⟩
  | text text =>
  have hopen : Inside tree options (canonical :: seen)
      { s with events := s.events ++ [.opened canonical] } := by
    constructor
    · apply hs.confined.opened
      · omega
      · rw [hs.stack]
        apply hdepth
      · rw [hs.stack]
        apply hseen
      · apply hadm text hread
      · apply hbelow
    · rw [stack_opened, hs.stack]
    · rw [reads_opened]
      apply hcount
  simp only [wp_bind, wp_modify]
  apply wp_mono (expandLines_wp hchild hopen)
  · intro lines t ht
    constructor
    · apply ht.confined.closed
    · rw [stack_closed, ht.stack, tail_cons]
    · rw [reads_closed]
      apply ht.reads
  · intro e t ht
    apply ht

/-- A permission is asked for without reading anything. -/
theorem decided_wp {cwd : Absolute} (hs : Inside tree options seen s) :
  wp (decided options cwd canonical depth)
    (fun _ t => Inside tree options seen t ∧ t.events = s.events ∧ t.count = s.count)
    (Failed tree options) s
  := by
  rw [decided, wp_ite]
  split_ifs
  · simp only [decisionOn, wp_bind, wp_get, wp_modify]
    split
    · exact ⟨⟨hs.confined, hs.stack, hs.reads⟩, rfl, rfl⟩
    · exact ⟨by decide, hs.confined⟩
  · exact ⟨hs, rfl, rfl⟩

theorem expandCanonical_wp (hhonest : Honest tree) {expandChild : Text → Load Text} {path : Text}
    (hs : Inside tree options seen s) (hcount : reads s.events < s.count)
    (hwidth : s.count ≤ options.includeLimit) (hdepth : seen.length ≤ options.depthLimit)
    (hmd : isMd path) (hsens : sensitive path = false)
    (hpath : tree.realpath (targetOf tree path) = some canonical)
    (hchild : ∀ child s, canonical ∉ seen → Inside tree options (canonical :: seen) s →
      wp (expandChild child) (fun _ => Inside tree options (canonical :: seen))
        (Failed tree options) s) :
  wp (expandCanonical tree options expandChild path canonical depth seen)
    (fun _ => Inside tree options seen) (Failed tree options) s
  := by
  rw [expandCanonical]
  cases hcwd : tree.realpath tree.cwd.text with
  | none => exact ⟨by decide, hs.confined⟩
  | some cwd =>
  cases hhome : tree.volundHome with
  | none => exact ⟨by decide, hs.confined⟩
  | some home =>
  simp only [wp_ite]
  split_ifs with houtside hcycle
  · apply hs
  · apply hs
  have hinside : insideRoot cwd canonical ∨ insideRoot home canonical := by
    simpa only [Bool.not_eq_true', Bool.not_eq_false, Bool.or_eq_true] using houtside
  have hbelow : Below tree canonical := by
    rcases hinside with hinside | hinside
    · exact ⟨cwd, Or.inl hcwd, prefix_of_insideRoot hinside⟩
    · exact ⟨home, Or.inr hhome, prefix_of_insideRoot hinside⟩
  have hadm (text : Text) (hread : tree.read canonical = .text text) :
      Admissible canonical :=
    hhonest path canonical text hmd hsens hpath hread ⟨cwd, home, hcwd, hhome, hinside⟩
  rw [wp_bind]
  apply wp_mono (decided_wp hs)
  · rintro kind t ⟨ht, hevents, hsame⟩
    rw [← hevents, ← hsame] at hcount
    rw [← hsame] at hwidth
    rw [wp_ite]
    split_ifs
    · apply ht
    · apply expandFile_wp ht hcount hwidth hdepth hcycle hadm hbelow
      intro child u hu
      apply hchild child u hcycle hu
  · intro e t ht
    apply ht

/-- An expansion leaves the load confined, and the files that are being expanded as they were. -/
theorem expand_wp (hhonest : Honest tree) {n : ℕ} (path : Text)
    (hs : Inside tree options seen s) (hlen : seen.length = depth)
    (hdepth : depth ≤ options.depthLimit + 1) (hn : options.depthLimit + 1 < n + depth) :
  wp (expand tree options n path depth seen) (fun _ => Inside tree options seen)
    (Failed tree options) s
  := by
  induction n generalizing path depth seen s with
  | zero => omega
  | succ n ih =>
  have hcount : Inside tree options seen { s with count := s.count + 1 } :=
    ⟨hs.confined, hs.stack, hs.reads.trans (Nat.le_succ _)⟩
  simp only [expand, wp_ite, wp_bind, wp_get, wp_modify]
  split_ifs with hdeep hlimit hmd hsens
  · apply hs
  · apply hcount
  · apply hcount
  · apply hcount
  cases hpath : tree.realpath (targetOf tree path) with
    | none => apply hcount
    | some canonical =>
      have hreads := hs.reads
      apply expandCanonical_wp hhonest hcount
      · exact Nat.lt_succ_of_le hreads
      · exact Nat.not_le.mp hlimit
      · omega
      · simpa using hmd
      · simpa using hsens
      · apply hpath
      intro child t _ ht
      apply ih _ ht
      · rw [length_cons, hlen]
      all_goals omega

/-! ### Loads of a single file -/

/-- One file is loaded without what it includes. -/
def alone : PromptOptions where
  maxDepth := some 0
  maxIncludes := some 1
  request _ _ := none

/-- A file with an admissible name inside the roots is read by a load of its own. -/
theorem load_alone {path text : Text} {cwd home : Absolute} (hmd : isMd path)
    (hsens : sensitive path = false) (hpath : tree.realpath (targetOf tree path) = some canonical)
    (hread : tree.read canonical = .text text) (hcwd : tree.realpath tree.cwd.text = some cwd)
    (hhome : tree.volundHome = some home)
    (hinside : insideRoot cwd canonical ∨ insideRoot home canonical) :
  (stateOf (load tree alone 2 path)).events = [.opened canonical, .closed]
  := by
  have hchild (child : Text) (s : LoaderState) (hs : s.events = [.opened canonical]) :
      wp (expand tree alone 1 child 1 [canonical]) (fun _ t => t.events = [.opened canonical])
        (fun _ _ => False) s := by
    rw [expand]
    apply hs
  have hfile (t : LoaderState) (ht : t.events = []) :
      wp (expandFile tree (fun child => expand tree alone 1 child 1 [canonical]) canonical 0)
        (fun _ u => u.events = [.opened canonical, .closed]) (fun _ _ => False) t := by
    simp only [expandFile, hread, wp_bind, wp_modify]
    apply wp_mono (expandLines_wp hchild (by simp [ht]))
    · intro _ u hu
      change u.events ++ [.closed] = _
      rw [hu]
      rfl
    · intro _ _ hfalse
      apply hfalse
  have hcanonical (t : LoaderState) (ht : t.events = []) :
      wp (expandCanonical tree alone (fun child => expand tree alone 1 child 1 [canonical]) path
        canonical 0 []) (fun _ u => u.events = [.opened canonical, .closed]) (fun _ _ => False)
        t := by
    have hroots : ¬ (!(insideRoot cwd canonical || insideRoot home canonical)) = true := by
      rw [Bool.not_eq_true', Bool.not_eq_false, Bool.or_eq_true]
      apply hinside
    simp only [expandCanonical, hcwd, hhome, wp_ite]
    rw [if_neg hroots, if_neg not_mem_nil]
    apply hfile t ht
  have hload : wp (expand tree alone 2 path 0 [])
      (fun _ t => t.events = [.opened canonical, .closed]) (fun _ _ => False) ⟨0, 0, []⟩ := by
    simp only [expand, wp_ite, wp_bind, wp_get, wp_modify, hmd, hsens, hpath]
    apply hcanonical
    rfl
  rw [load]
  cases hres : expand tree alone 2 path 0 [] ⟨0, 0, []⟩ with
  | ok _ t => apply wp_ok hload hres
  | error _ t => cases wp_error hload hres

/-- A tree all of whose loads are confined is honest. -/
theorem honest_of_confines (h : ConfinesAll tree) :
  Honest tree
  := by
  rintro path canonical text hmd hsens hpath hread ⟨cwd, home, hcwd, hhome, hinside⟩
  have hconfined := (h alone path 2 (by decide)).2
  rw [load_alone hmd hsens hpath hread hcwd hhome hinside] at hconfined
  obtain ⟨-, -, hadm, -⟩ := hconfined.files [] canonical [.closed] rfl
  apply hadm

/-- Every load from a tree comes to its end, reads at most `maxIncludes` files, nests at most
`maxDepth` levels, expands no file within itself and reads only Markdown files below the roots that
are not sensitive, exactly when the tree is honest. -/
theorem confinesAll_iff (tree : PromptTree) :
  ConfinesAll tree ↔ Honest tree
  := by
  constructor
  · apply honest_of_confines
  intro hhonest options path n hn
  have hstart : Inside tree options [] ⟨0, 0, []⟩ := by
    constructor
    · apply confined_nil
    · rfl
    · rfl
  have hload := expand_wp hhonest path hstart rfl (Nat.zero_le _) hn
  rw [load]
  cases hres : expand tree options n path 0 [] ⟨0, 0, []⟩ with
  | ok text t =>
    use nofun
    apply (wp_ok hload hres).confined
  | error e t =>
    obtain ⟨hne, hconfined⟩ := wp_error hload hres
    use fun s heq => hne (by cases heq; rfl)
    apply hconfined

/-- A tree whose file `/w/notes.md` is a link to `/w/.env`. -/
def linkedTree : PromptTree where
  cwd := ⟨["w".toList], by decide⟩
  homedir := ⟨["h".toList], by decide⟩
  realpath path :=
    if path = "/w".toList then some ⟨["w".toList], by decide⟩
    else if path = "/w/notes.md".toList ∨ path = "/w/.env".toList then
      some ⟨["w".toList, ".env".toList], by decide⟩
    else none
  volundHome := some ⟨["h".toList, ".volund".toList], by decide⟩
  read path :=
    if path.segments = ["w".toList, ".env".toList] then .text "TOKEN=secret".toList else .fails

/-- The link is followed to a sensitive file. -/
theorem not_confinesAll :
  ¬ ConfinesAll linkedTree
  := by
  intro h
  have hadm := honest_of_confines h "/w/notes.md".toList
    ⟨["w".toList, ".env".toList], by decide⟩ "TOKEN=secret".toList (by decide) (by decide)
    (by decide) rfl ⟨⟨["w".toList], by decide⟩, ⟨["h".toList, ".volund".toList], by decide⟩,
      by decide, by decide, by decide⟩
  revert hadm
  rw [Admissible]
  decide

end Storage.Prompts
