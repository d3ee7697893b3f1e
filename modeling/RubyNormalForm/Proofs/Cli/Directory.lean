import RubyNormalForm.Cli.Entry
import RubyNormalForm.Proofs.Utf8.Order

/-!
# The search of a directory

Below a directory an entry is told by names, one for each directory on the way and one for the
entry itself. A search lists the raw trees there: the files with the extension, each once, in
the order of their names read component by component. This is not the order of the written
paths, in which a dot comes before a slash: a directory `a` stands before a file `a.dump`
next to it, and so does everything in it.
-/

namespace RubyNormalForm.Cli

/-- The names lead to the entry from a directory with the given entries. -/
inductive Below : List (String × Entry) → List String → Entry → Prop where
  | here {entries : List (String × Entry)} {name : String} {entry : Entry}
      (member : (name, entry) ∈ entries) : Below entries [name] entry
  | inside {entries inner : List (String × Entry)} {name : String} {names : List String}
      {entry : Entry} (member : (name, .dir inner) ∈ entries) (below : Below inner names entry) :
      Below entries (name :: names) entry

/-- The entries of a directory that can be searched: in a directory names differ, and there and
below all directories can be listed. -/
structure Searchable (entries : List (String × Entry)) : Prop where
  distinct : (entries.map Prod.fst).Nodup
  distinctBelow : ∀ {names inner}, Below entries names (.dir inner) → (inner.map Prod.fst).Nodup
  listed : ∀ {names}, ¬ Below entries names .locked

/-- The extension of a name is what follows its last dot, unless the name begins with that
dot. -/
def HasExtension (name extension : String) : Prop :=
  '.' ∉ extension.toList ∧ ∃ stem, stem ≠ "" ∧ name = stem ++ "." ++ extension

/-- The names lead to a raw tree: a file with the extension. -/
structure IsDumpBelow (entries : List (String × Entry)) (names : List String) (entry : Entry) :
    Prop where
  below : Below entries names entry
  isFile : entry.isFile = true
  extension : ∃ name ∈ names.getLast?, HasExtension name "dump"

theorem Below.ne_nil {entries : List (String × Entry)} {names : List String} {entry : Entry}
    (below : Below entries names entry) : names ≠ [] := by
  cases below <;> exact List.cons_ne_nil _ _

theorem Below.mono {entries entries' : List (String × Entry)} {names : List String}
    {entry : Entry} (below : Below entries names entry) (among : entries ⊆ entries') :
    Below entries' names entry := by
  cases below with
  | here member => exact .here (among member)
  | inside member below => exact .inside (among member) below

theorem Searchable.inside {entries inner : List (String × Entry)} {name : String}
    (searchable : Searchable entries) (member : (name, .dir inner) ∈ entries) :
    Searchable inner where
  distinct := searchable.distinctBelow (.here member)
  distinctBelow below := searchable.distinctBelow (.inside member below)
  listed below := searchable.listed (.inside member below)

/-- A directory that can be searched, told one level at a time. -/
theorem searchable_iff {entries : List (String × Entry)} :
    Searchable entries ↔ (entries.map Prod.fst).Nodup ∧
      ∀ name entry, (name, entry) ∈ entries → entry.isDir = true →
        ∃ inner, entry = .dir inner ∧ Searchable inner := by
  constructor
  · intro searchable
    refine ⟨searchable.distinct, fun name entry member isDir => ?_⟩
    cases entry with
    | dir inner => exact ⟨inner, rfl, searchable.inside member⟩
    | locked => exact absurd (.here member) searchable.listed
    | _ => cases isDir
  · rintro ⟨distinct, inside⟩
    have searchableInner {name : String} {inner : List (String × Entry)}
        (member : (name, .dir inner) ∈ entries) : Searchable inner := by
      obtain ⟨_, same, searchable⟩ := inside name _ member rfl
      cases same
      exact searchable
    refine ⟨distinct, fun below => ?_, fun below => ?_⟩
    · cases below with
      | here member => exact (searchableInner member).distinct
      | inside member below => exact (searchableInner member).distinctBelow below
    · cases below with
      | here member =>
        obtain ⟨_, same, -⟩ := inside _ _ member rfl
        cases same
      | inside member below => exact (searchableInner member).listed below

namespace Entry

theorem isDump_iff {name : String} : isDump name = true ↔ HasExtension name "dump" := by
  simp only [isDump, Bool.and_eq_true, decide_eq_true_eq, List.isSuffixOf_iff_suffix]
  constructor
  · rintro ⟨longer, stem, isName⟩
    refine ⟨by decide, String.ofList stem, ?_, ?_⟩
    · rintro isEmpty
      obtain rfl : stem = [] := String.ofList_eq_empty_iff.1 isEmpty
      rw [← isName] at longer
      exact Nat.lt_irrefl _ longer
    · rw [← String.toList_inj, ← isName]
      simp [extension]
  · rintro ⟨-, stem, notEmpty, rfl⟩
    have written : (stem ++ "." ++ "dump").toList = stem.toList ++ extension := by
      simp [extension]
    have longer : 0 < stem.toList.length :=
      List.length_pos_of_ne_nil fun isEmpty => notEmpty (String.toList_eq_nil_iff.1 isEmpty)
    rw [written, List.length_append]
    exact ⟨by omega, List.suffix_append _ _⟩

/-! ### The search by names -/

mutual

/-- The raw trees at a path, each with the names that lead to it from there. -/
def dumps : Entry → List (List String × Entry)
  | .dir entries => ((dumpsIn entries).mergeSort byName).flatMap Prod.snd
  | .locked => []
  | other => [([], other)]

/-- The raw trees at each entry of a directory, with the names of the entries. -/
def dumpsIn : List (String × Entry) → List (String × List (List String × Entry))
  | [] => []
  | (name, entry) :: rest =>
    (name, if isSearched name entry then (dumps entry).map fun d => (name :: d.1, d.2) else []) ::
      dumpsIn rest

end

/-- A path joined with names. -/
def pathTo (path : String) (names : List String) : String :=
  names.foldl join path

mutual

/-- The search writes each path from the names. -/
theorem dumpsBelow_eq (path : String) (entry : Entry) :
    entry.dumpsBelow path = entry.dumps.map (Prod.map (pathTo path) id) := by
  cases entry with
  | dir entries =>
    have sorted := List.map_mergeSort (r := byName) (s := byName) (l := dumpsIn entries)
      (f := Prod.map id (List.map (Prod.map (pathTo path) id))) fun _ _ _ _ => rfl
    rw [dumpsBelow, dumps, dumpsOf_eq path entries, ← sorted, List.flatMap_map, List.map_flatMap]
    rfl
  | _ => rfl

theorem dumpsOf_eq (path : String) (entries : List (String × Entry)) :
    dumpsOf path entries =
      (dumpsIn entries).map (Prod.map id (List.map (Prod.map (pathTo path) id))) := by
  match entries with
  | [] => rfl
  | (name, entry) :: rest =>
    rw [dumpsOf, dumpsIn, List.map_cons, dumpsOf_eq path rest, dumpsBelow_eq _ entry]
    split
    · rw [Prod.map_apply, List.map_map]
      rfl
    · rfl

end

/-! ### What is found -/

theorem dumps_of_not_isDir {entry : Entry} (noDir : entry.isDir = false) :
    entry.dumps = [([], entry)] := by
  cases entry with
  | dir entries => cases noDir
  | locked => cases noDir
  | _ => rfl

theorem mem_dumpsIn {entries : List (String × Entry)} {x : String × List (List String × Entry)} :
    x ∈ dumpsIn entries ↔ ∃ e ∈ entries, x = (e.1, if isSearched e.1 e.2 then
      e.2.dumps.map fun d => (e.1 :: d.1, d.2) else []) := by
  induction entries with
  | nil => simp [dumpsIn]
  | cons e rest ih => rw [dumpsIn, List.mem_cons, ih, List.exists_mem_cons_iff]

theorem mem_dumps_dir {entries : List (String × Entry)} {d : List String × Entry} :
    d ∈ (Entry.dir entries).dumps ↔ ∃ e ∈ entries, isSearched e.1 e.2 = true ∧
      ∃ inside ∈ e.2.dumps, d = (e.1 :: inside.1, inside.2) := by
  simp only [dumps, List.mem_flatMap, List.mem_mergeSort, mem_dumpsIn]
  constructor
  · rintro ⟨-, ⟨e, member, rfl⟩, found⟩
    split at found
    · rename_i searched
      obtain ⟨inside, isInside, rfl⟩ := List.mem_map.1 found
      exact ⟨e, member, searched, inside, isInside, rfl⟩
    · cases found
  · rintro ⟨e, member, searched, inside, isInside, rfl⟩
    refine ⟨_, ⟨e, member, rfl⟩, ?_⟩
    rw [if_pos searched]
    exact List.mem_map_of_mem isInside

/-- The search finds the raw trees and nothing else. -/
theorem mem_dumps_iff {entries : List (String × Entry)} {names : List String} {entry : Entry} :
    (names, entry) ∈ (Entry.dir entries).dumps ↔ IsDumpBelow entries names entry := by
  -- Each name goes down one directory, so the induction leaves the directory open.
  induction names generalizing entries with
  | nil =>
    rw [mem_dumps_dir]
    constructor
    · rintro ⟨e, -, -, inside, -, isCons⟩
      cases isCons
    · rintro ⟨below, -, -⟩
      cases below
  | cons name names ih =>
    rw [mem_dumps_dir]
    constructor
    · rintro ⟨⟨name, found⟩, member, searched, inside, isInside, same⟩
      cases same
      cases found with
      | dir inner =>
        obtain ⟨below, isFile, extension⟩ := ih.1 isInside
        refine ⟨.inside member below, isFile, ?_⟩
        rwa [List.getLast?_cons_of_ne_nil below.ne_nil]
      | locked => cases isInside
      | special => cases searched
      | _ =>
        rw [dumps_of_not_isDir rfl, List.mem_singleton] at isInside
        cases isInside
        exact ⟨.here member, rfl, _, rfl, isDump_iff.1 searched⟩
    · rintro ⟨below, isFile, extension⟩
      cases below with
      | here member =>
        obtain ⟨_, isLast, hasExtension⟩ := extension
        cases isLast
        have isName : isDump name = true := isDump_iff.2 hasExtension
        have noDir : entry.isDir = false := by cases entry <;> first | rfl | cases isFile
        refine ⟨_, member, ?_, ([], entry), ?_, rfl⟩
        · rw [isSearched, isFile, isName, Bool.and_true, Bool.or_true]
        · rw [dumps_of_not_isDir noDir]
          exact List.mem_singleton_self _
      | inside member below =>
        rw [List.getLast?_cons_of_ne_nil below.ne_nil] at extension
        exact ⟨_, member, rfl, _, ih.2 ⟨below, isFile, extension⟩, rfl⟩

/-! ### The order -/

/-- Names that differ are in strict order once they are in order. -/
theorem pairwise_byName {α : Type} {xs : List (String × α)} (distinct : (xs.map Prod.fst).Nodup) :
    (xs.mergeSort byName).Pairwise fun x y => x.1 < y.1 := by
  have ordered : (xs.mergeSort byName).Pairwise fun x y => byName x y = true :=
    List.pairwise_mergeSort (fun x y z hxy hyz => ?_) (fun x y => ?_) xs
  · have distinct' : ((xs.mergeSort byName).map Prod.fst).Nodup :=
      ((List.mergeSort_perm xs byName).map Prod.fst).nodup_iff.2 distinct
    refine (ordered.and (List.pairwise_map.1 distinct')).imp fun {x y} both => ?_
    exact lt_of_le_of_ne (of_decide_eq_true both.1) both.2
  · simp only [byName, decide_eq_true_eq] at hxy hyz ⊢
    exact le_trans hxy hyz
  · simp only [byName, Bool.or_eq_true, decide_eq_true_eq]
    exact le_total x.1 y.1

theorem map_fst_dumpsIn (entries : List (String × Entry)) :
    (dumpsIn entries).map Prod.fst = entries.map Prod.fst := by
  induction entries with
  | nil => rfl
  | cons e rest ih => rw [dumpsIn, List.map_cons, List.map_cons, ih]

/-- What is found at an entry begins with its name. -/
theorem exists_cons_of_mem_dumpsIn {entries : List (String × Entry)}
    {x : String × List (List String × Entry)} (among : x ∈ dumpsIn entries)
    {d : List String × Entry} (found : d ∈ x.2) : ∃ names, d.1 = x.1 :: names := by
  obtain ⟨e, -, rfl⟩ := mem_dumpsIn.1 among
  dsimp only at found
  split at found
  · obtain ⟨inside, -, rfl⟩ := List.mem_map.1 found
    exact ⟨inside.1, rfl⟩
  · cases found

mutual

/-- The search goes through the raw trees in strict order of their names. -/
theorem pairwise_dumps (entry : Entry)
    (searchable : ∀ entries, entry = .dir entries → Searchable entries) :
    entry.dumps.Pairwise fun a b => a.1 < b.1 := by
  cases entry with
  | dir entries =>
    have here := searchable entries rfl
    rw [dumps]
    -- What is found at one entry begins with one name and is in order below it; between two
    -- entries the first name decides.
    refine List.pairwise_flatMap.2 ⟨fun x among => ?_, ?_⟩
    · exact pairwise_dumpsIn entries (fun _ _ => here.inside) x (List.mem_mergeSort.1 among)
    · have distinct := here.distinct
      rw [← map_fst_dumpsIn] at distinct
      refine (pairwise_byName distinct).imp_of_mem fun {x y} isX isY before a inX b inY => ?_
      obtain ⟨names, isA⟩ := exists_cons_of_mem_dumpsIn (List.mem_mergeSort.1 isX) inX
      obtain ⟨names', isB⟩ := exists_cons_of_mem_dumpsIn (List.mem_mergeSort.1 isY) inY
      rw [isA, isB]
      exact List.cons_lt_cons_iff.2 (.inl before)
  | locked => exact .nil
  | _ => exact List.pairwise_singleton _ _

theorem pairwise_dumpsIn (entries : List (String × Entry))
    (searchable : ∀ name inner, (name, .dir inner) ∈ entries → Searchable inner) :
    ∀ x ∈ dumpsIn entries, x.2.Pairwise fun a b => a.1 < b.1 := by
  match entries with
  | [] => exact List.forall_mem_nil _
  | (name, entry) :: rest =>
    have inRest : ∀ name inner, (name, .dir inner) ∈ rest → Searchable inner :=
      fun name inner member => searchable name inner (List.mem_cons_of_mem _ member)
    rw [dumpsIn, List.forall_mem_cons]
    refine ⟨?_, pairwise_dumpsIn rest inRest⟩
    split
    · have inside := pairwise_dumps entry fun inner isDir =>
        searchable name inner (by rw [← isDir]; exact List.mem_cons_self)
      refine List.pairwise_map.2 (inside.imp fun before => ?_)
      exact List.cons_lt_cons_iff.2 (.inr ⟨rfl, before⟩)
    · exact .nil

end

/-- The bytes of names, component by component. -/
def namesBytes (names : List String) : List (List UInt8) :=
  names.map Utf8.ofText

theorem namesBytes_lt {names names' : List String} (before : names < names') :
    namesBytes names < namesBytes names' := by
  induction before with
  | nil => exact List.nil_lt_cons _ _
  | cons _ ih => exact List.cons_lt_cons_iff.2 (.inr ⟨rfl, ih⟩)
  | rel lower => exact List.cons_lt_cons_iff.2 (.inl (Utf8.ofText_lt_ofText lower))

/-! ### Directories that can be listed -/

mutual

theorem isListed_of_not_below (entry : Entry) (unlocked : entry ≠ .locked)
    (listed : ∀ entries names, entry = .dir entries → ¬ Below entries names .locked) :
    entry.isListed = true := by
  cases entry with
  | dir entries => exact areListed_of_not_below entries fun names => listed entries names rfl
  | locked => exact absurd rfl unlocked
  | _ => rfl

theorem areListed_of_not_below (entries : List (String × Entry))
    (listed : ∀ names, ¬ Below entries names .locked) : areListed entries = true := by
  match entries with
  | [] => rfl
  | (name, entry) :: rest =>
    rw [areListed, Bool.and_eq_true]
    constructor
    · refine isListed_of_not_below entry ?_ ?_
      · rintro rfl
        exact listed [name] (.here List.mem_cons_self)
      · rintro inner names rfl below
        exact listed (name :: names) (.inside List.mem_cons_self below)
    · refine areListed_of_not_below rest fun names below => ?_
      exact listed names (below.mono (List.subset_cons_self _ _))

end

end Entry

end RubyNormalForm.Cli
