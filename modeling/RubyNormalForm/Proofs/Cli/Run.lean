import Mathlib
import RubyNormalForm.Cli.Run
import RubyNormalForm.Proofs.Cli.Directory
import RubyNormalForm.Proofs.Rules.Outcome

/-!
# A run over a directory

A run prints the trees of the files it has found, each after a line with the path of its file,
up to the first file that fails; what was printed before stays. The files of a directory are its
raw trees in the order of their names. They are all found before the first is read, so no failure
of a file changes which files a run goes through or in which order.
-/

namespace RubyNormalForm.Cli

/-- What is found at a path reads as a raw tree in a declared encoding, which has a normal form,
and this is how it is printed. -/
def Renders (config : Config) (o : Options) (path : String) (entry : Option Entry)
    (text : String) : Prop :=
  ∃ dump r encoding form, entry.bind Entry.text? = some dump ∧ Raw.read dump path = .ok r ∧
    MagicComment.encoding dump (o.filename.getD path) = .ok encoding ∧
    normalize config { filename := o.filename.getD path, firstLine := o.line, encoding } r =
      .ok form ∧
    text = render o.format o.lines form

variable {config : Config} {o : Options}

theorem normalizeText_eq_ok {path dump text : String} :
    normalizeText config o path dump = .ok text ↔ ∃ r encoding form, Raw.read dump path = .ok r ∧
      MagicComment.encoding dump (o.filename.getD path) = .ok encoding ∧
      normalize config { filename := o.filename.getD path, firstLine := o.line, encoding } r =
        .ok form ∧
      text = render o.format o.lines form := by
  constructor
  · intro succeeds
    obtain ⟨r, isRead, succeeds⟩ := bind_eq_ok.1 succeeds
    obtain ⟨encoding, isDeclared, succeeds⟩ := bind_eq_ok.1 succeeds
    obtain ⟨form, isNormal, succeeds⟩ := bind_eq_ok.1 succeeds
    cases succeeds
    exact ⟨r, encoding, form, isRead, isDeclared, isNormal, rfl⟩
  · rintro ⟨r, encoding, form, isRead, isDeclared, isNormal, rfl⟩
    refine bind_eq_ok.2 ⟨r, isRead, bind_eq_ok.2 ⟨encoding, isDeclared, ?_⟩⟩
    exact bind_eq_ok.2 ⟨form, isNormal, rfl⟩

theorem normalizeFile_eq_ok {path : String} {entry : Option Entry} {text : String} :
    normalizeFile config o path entry = .ok text ↔ Renders config o path entry text := by
  cases isText : entry.bind Entry.text? with
  | none =>
    have fails : normalizeFile config o path entry = .error (.unreadable path) := by
      rw [normalizeFile, readText, isText]
      rfl
    rw [fails, Renders, isText]
    simp
  | some dump =>
    have reads : normalizeFile config o path entry =
        (normalizeText config o path dump).mapError .tree := by
      rw [normalizeFile, readText, isText]
      rfl
    have same : normalizeFile config o path entry = .ok text ↔
        normalizeText config o path dump = .ok text := by
      rw [reads]
      cases normalizeText config o path dump <;> simp [Except.mapError]
    simp only [same, normalizeText_eq_ok, Renders, isText, Option.some.injEq, exists_and_left,
      exists_eq_left']

/-! ### Printing one file after the other -/

/-- What is printed for a file, after a line with its path if there may be many. -/
def listing (many : Bool) (path text : String) : String :=
  (if many then heading path else "") ++ text ++ "\n"

section

variable (many : Bool) {item : String × Option Entry}

theorem printAll_of_renders {text : String} (renders : Renders config o item.1 item.2 text)
    (rest : List (String × Option Entry)) :
    printAll config o many (item :: rest) =
      { printAll config o many rest with
        stdout := listing many item.1 text ++ (printAll config o many rest).stdout } := by
  rw [printAll, normalizeFile_eq_ok.2 renders]
  rfl

/-- At a file that fails the run ends. -/
theorem printAll_of_fails (fails : ∀ text, ¬ Renders config o item.1 item.2 text)
    (rest : List (String × Option Entry)) :
    ∃ failure, printAll config o many (item :: rest) = { ending := .failed failure } := by
  cases found : normalizeFile config o item.1 item.2 with
  | ok text => exact absurd (normalizeFile_eq_ok.1 found) (fails text)
  | error failure =>
    refine ⟨failure, ?_⟩
    rw [printAll, found]

/-- The files up to the first that fails are printed, and no others. -/
theorem exists_printed (items : List (String × Option Entry)) :
    ∃ done rest texts, items = done ++ rest ∧
      List.Forall₂ (fun item text => Renders config o item.1 item.2 text) done texts ∧
      (∀ item ∈ rest.head?, ∀ text, ¬ Renders config o item.1 item.2 text) ∧
      (printAll config o many items).stdout =
        String.join (List.zipWith (fun item => listing many item.1) done texts) := by
  induction items with
  | nil =>
    refine ⟨[], [], [], rfl, .nil, ?_, rfl⟩
    rintro item isFirst
    cases isFirst
  | cons item items ih =>
    by_cases renders : ∃ text, Renders config o item.1 item.2 text
    · obtain ⟨text, renders⟩ := renders
      obtain ⟨done, rest, texts, isSplit, others, fails, printed⟩ := ih
      refine ⟨item :: done, rest, text :: texts, by rw [isSplit, List.cons_append],
        .cons renders others, fails, ?_⟩
      rw [printAll_of_renders many renders, printed, List.zipWith_cons_cons, String.join_cons]
    · rw [not_exists] at renders
      refine ⟨[], item :: items, [], rfl, .nil, ?_, ?_⟩
      · rintro first isFirst
        cases isFirst
        exact renders
      · obtain ⟨failure, ends⟩ := printAll_of_fails many renders items
        rw [ends]
        rfl

theorem status_printAll_eq_zero_iff (items : List (String × Option Entry)) :
    (printAll config o many items).status = 0 ↔
      ∀ item ∈ items, ∃ text, Renders config o item.1 item.2 text := by
  induction items with
  | nil => exact ⟨fun _ => List.forall_mem_nil _, fun _ => rfl⟩
  | cons item items ih =>
    rw [List.forall_mem_cons]
    by_cases renders : ∃ text, Renders config o item.1 item.2 text
    · obtain ⟨text, renders⟩ := renders
      rw [printAll_of_renders many renders]
      exact ih.trans ⟨fun others => ⟨⟨text, renders⟩, others⟩, And.right⟩
    · obtain ⟨failure, ends⟩ := printAll_of_fails many (not_exists.1 renders) items
      rw [ends]
      exact ⟨fun isZero => absurd isZero Nat.one_ne_zero, fun all => absurd all.1 renders⟩

end

/-! ### The files of a directory -/

theorem inputs_dir {entries : List (String × Entry)} (searchable : Searchable entries)
    (path : String) :
    inputs path (some (.dir entries)) =
      .ok ((Entry.dir entries).dumps.map fun d => (Entry.pathTo path d.1, some d.2)) := by
  have listed : (Entry.dir entries).isListed = true :=
    Entry.areListed_of_not_below entries fun names => searchable.listed
  rw [inputs, if_pos listed, Entry.dumpsBelow_eq, List.map_map]
  rfl

/-- A run over a directory that can be searched, with arguments that make sense and a
configuration that loads. Its files are the raw trees below the directory, each once, in the
order of the bytes of their names component by component. It prints the longest stretch of them
from the first in which every file renders, each after a line with its path, and nothing of the
first one that fails or of any later one. It succeeds if and only if no file fails. -/
theorem run_directory {files : Files} {args : List String} {entries : List (String × Entry)}
    (asked : Request.ofArgs? args = some (.run o)) (configured : loadConfig files o = .ok config)
    (isDir : files o.path = some (.dir entries)) (searchable : Searchable entries) :
    ∃ dumps : List (List String × Entry),
      (∀ names entry, (names, entry) ∈ dumps ↔ IsDumpBelow entries names entry) ∧
      (dumps.Pairwise fun a b => Entry.namesBytes a.1 < Entry.namesBytes b.1) ∧
      inputs o.path (files o.path) =
        .ok (dumps.map fun d => (Entry.pathTo o.path d.1, some d.2)) ∧
      (∃ done rest texts, dumps = done ++ rest ∧
        List.Forall₂ (fun d text => Renders config o (Entry.pathTo o.path d.1) (some d.2) text)
          done texts ∧
        (∀ d ∈ rest.head?, ∀ text,
          ¬ Renders config o (Entry.pathTo o.path d.1) (some d.2) text) ∧
        (run files args).stdout = String.join
          (List.zipWith (fun d text => heading (Entry.pathTo o.path d.1) ++ text ++ "\n")
            done texts)) ∧
      ((run files args).status = 0 ↔
        ∀ d ∈ dumps, ∃ text, Renders config o (Entry.pathTo o.path d.1) (some d.2) text) := by
  have found := inputs_dir searchable o.path
  have ran : run files args = printAll config o true
      ((Entry.dir entries).dumps.map fun d => (Entry.pathTo o.path d.1, some d.2)) := by
    simp only [run, asked, execute, configured, isDir, found]
    rfl
  refine ⟨(Entry.dir entries).dumps, fun names entry => Entry.mem_dumps_iff, ?_, ?_, ?_, ?_⟩
  · have ordered := Entry.pairwise_dumps (.dir entries) fun _ same => by
      cases same
      exact searchable
    exact ordered.imp Entry.namesBytes_lt
  · rw [isDir, found]
  · rw [ran]
    obtain ⟨done, rest, texts, isSplit, renders, fails, printed⟩ :=
      exists_printed true ((Entry.dir entries).dumps.map fun d => (Entry.pathTo o.path d.1, some d.2))
    obtain ⟨done, rest, halves, rfl, rfl⟩ := List.map_eq_append_iff.1 isSplit
    refine ⟨done, rest, texts, halves, List.forall₂_map_left_iff.1 renders, ?_, ?_⟩
    · intro d isFirst
      exact fails (Entry.pathTo o.path d.1, some d.2) (by rw [List.head?_map, isFirst]; rfl)
    · rw [printed, List.zipWith_map_left]
      rfl
  · rw [ran, status_printAll_eq_zero_iff, List.forall_mem_map]

/-! A directory `d` with a directory, a file beside it that is no raw tree, a link, and a file
that is not reached. -/

def emptyProgram : Entry :=
  .file (Utf8.ofText "[:program,[]]")

def mixedEntries : List (String × Entry) :=
  [("b.dump", emptyProgram), ("a.dump", .file (Utf8.ofText "[")), ("link.dump", .special),
    ("a", .dir [("z.dump", emptyProgram)])]

def mixedFiles : Files := fun path =>
  if path = "d" then some (.dir mixedEntries) else none

theorem searchable_mixedEntries : Searchable mixedEntries := by
  have searchableInner : Searchable [("z.dump", emptyProgram)] := by
    refine searchable_iff.2 ⟨by decide, fun name entry member isDir => ?_⟩
    cases List.mem_singleton.1 member
    cases isDir
  refine searchable_iff.2 ⟨by decide, fun name entry member isDir => ?_⟩
  simp only [mixedEntries, List.mem_cons, Prod.mk.injEq, List.not_mem_nil, or_false] at member
  obtain ⟨-, rfl⟩ | ⟨-, rfl⟩ | ⟨-, rfl⟩ | ⟨-, rfl⟩ := member
  · cases isDir
  · cases isDir
  · cases isDir
  · exact ⟨_, rfl, searchableInner⟩

/-- The directory `a` comes before the file `a.dump`, though a dot comes before a slash. -/
theorem inputs_mixedFiles :
    inputs "d" (mixedFiles "d") = .ok [("d/a/z.dump", some emptyProgram),
      ("d/a.dump", some (.file (Utf8.ofText "["))), ("d/b.dump", some emptyProgram)] := by
  have found : Entry.dumpsOf "d" mixedEntries = [("b.dump", [("d/b.dump", emptyProgram)]),
      ("a.dump", [("d/a.dump", .file (Utf8.ofText "["))]), ("link.dump", []),
      ("a", [("d/a/z.dump", emptyProgram)])] := by cbv
  have listed : (Entry.dir mixedEntries).isListed = true := rfl
  have isDir : mixedFiles "d" = some (.dir mixedEntries) := rfl
  rw [isDir, inputs, if_pos listed, Entry.dumpsBelow, found]
  simp [List.mergeSort, Entry.byName]

theorem mixedDirectory_run :
    let o : Options := { path := "d" }
    Request.ofArgs? ["d"] = some (.run o) ∧ loadConfig mixedFiles o = .ok {} ∧
    mixedFiles "d" = some (.dir mixedEntries) ∧ Searchable mixedEntries ∧
    (run mixedFiles ["d"]).stdout = "== d/a/z.dump\nnil\n" ∧ (run mixedFiles ["d"]).status = 1 ∧
    ∃ dumps : List (List String × Entry),
      dumps.map (fun d => Entry.pathTo "d" d.1) = ["d/a/z.dump", "d/a.dump", "d/b.dump"] ∧
      (∀ names entry, (names, entry) ∈ dumps ↔ IsDumpBelow mixedEntries names entry) ∧
      (dumps.Pairwise fun a b => Entry.namesBytes a.1 < Entry.namesBytes b.1) ∧
      ¬ ∀ d ∈ dumps, ∃ text, Renders {} o (Entry.pathTo "d" d.1) (some d.2) text := by
  intro o
  have asked : Request.ofArgs? ["d"] = some (.run o) := by cbv
  have configured : loadConfig mixedFiles o = .ok {} := rfl
  have ran : run mixedFiles ["d"] = Outcome.mk "== d/a/z.dump\nnil\n"
      (.failed (.tree (.source .malformedDump "d/a.dump" (some 1)))) := by
    simp only [run, asked, execute, configured]
    rw [inputs_mixedFiles]
    cbv
  obtain ⟨dumps, isDump, ordered, found, -, succeeds⟩ :=
    run_directory asked configured rfl searchable_mixedEntries
  refine ⟨asked, configured, rfl, searchable_mixedEntries, by rw [ran], by rw [ran]; rfl, dumps, ?_,
    isDump, ordered, ?_⟩
  · have same := Except.ok.inj (found.symm.trans inputs_mixedFiles)
    have paths := congrArg (List.map Prod.fst) same
    rwa [List.map_map] at paths
  · rw [← succeeds, ran]
    exact Nat.one_ne_zero

end RubyNormalForm.Cli
