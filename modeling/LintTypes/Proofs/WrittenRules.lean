import LintTypes.Proofs.DocumentTexts
import LintTypes.Proofs.Nodes
import Mathlib.Data.List.Pairwise

/-!
# Written rules

What a rules document writes is told from its text alone (`Rules.Writes`): an object with entries
one behind the other, each of them a name in quotes, a colon, and a text that is a rule by itself.
Names that are in two documents are found when the documents are merged. A name that one document
repeats is not found there: each document has become a map by then, which has kept the last rule of
every name (`Entries.IsLast`) and lost the others.
-/

namespace LintTypes

/-! ## Last entries -/

namespace Entries

variable {α : Type} {key : String} {entry : String × α} {entries : List (String × α)}

/-- The entry is the last one with its key. -/
def IsLast (entry : String × α) (entries : List (String × α)) : Prop :=
  ∃ before behind, entries = before ++ entry :: behind ∧ entry.1 ∉ behind.map Prod.fst

/-- The last value wins. -/
theorem lookup_unique (entries : List (String × α)) (key : String) :
    (unique entries).lookup key = entries.reverse.lookup key := by
  have hfold : ∀ kept : List (String × α),
      (entries.foldl (fun kept entry => insert entry.1 entry.2 kept) kept).lookup key =
        (entries.reverse.lookup key).or (kept.lookup key) := by
    induction entries with
    | nil => exact fun kept => rfl
    | cons entry entries ih =>
      obtain ⟨k, value⟩ := entry
      intro kept
      rw [List.foldl_cons, ih, lookup_insert, List.reverse_cons, List.lookup_append,
        Option.or_assoc]
      congr 1
      by_cases hkey : key = k
      · simp [hkey]
      · simp [List.lookup_cons, beq_false_of_ne hkey, hkey]
  simpa [unique] using hfold []

theorem IsLast.mem (h : IsLast entry entries) : entry ∈ entries := by
  obtain ⟨before, behind, rfl, -⟩ := h
  exact List.mem_append_right before List.mem_cons_self

/-- The last entry with a key is what is found from behind. -/
theorem isLast_iff : IsLast entry entries ↔ entries.reverse.lookup entry.1 = some entry.2 := by
  rw [List.lookup_eq_some_iff]
  constructor
  · rintro ⟨before, behind, rfl, hbehind⟩
    refine ⟨behind.reverse, before.reverse, by simp, fun other hother => bne_iff_ne.2 ?_⟩
    intro hkey
    exact hbehind (hkey ▸ List.mem_map_of_mem (List.mem_reverse.1 hother))
  · rintro ⟨behind, before, hsplit, hbehind⟩
    refine ⟨before.reverse, behind.reverse, ?_, fun hkey => ?_⟩
    · rw [← List.reverse_inj, hsplit]
      simp
    · obtain ⟨other, hother, hkey⟩ := List.mem_map.1 hkey
      exact bne_iff_ne.1 (hbehind other (List.mem_reverse.1 hother)) hkey.symm

/-- Each key has a last entry. -/
theorem exists_isLast (h : key ∈ entries.map Prod.fst) : ∃ value, IsLast (key, value) entries := by
  obtain ⟨entry, hentry, rfl⟩ := List.mem_map.1 h
  have hsome : (entries.reverse.lookup entry.1).isSome = true :=
    List.lookup_isSome_iff.2 ⟨entry, List.mem_reverse.2 hentry, beq_self_eq_true _⟩
  obtain ⟨value, hvalue⟩ := Option.isSome_iff_exists.1 hsome
  exact ⟨value, isLast_iff.2 hvalue⟩

/-- Just the last entries of their keys are kept, -/
theorem mem_unique_iff : entry ∈ unique entries ↔ IsLast entry entries := by
  rw [isLast_iff, ← lookup_unique]
  constructor
  · exact lookup_of_mem (nodup_unique entries)
  · intro h
    obtain ⟨before, behind, hsplit, -⟩ := List.lookup_eq_some_iff.1 h
    rw [hsplit]
    exact List.mem_append_right _ List.mem_cons_self

/-- so no key gets lost. -/
theorem key_mem_unique_iff : key ∈ (unique entries).map Prod.fst ↔ key ∈ entries.map Prod.fst := by
  constructor
  · intro h
    obtain ⟨entry, hentry, rfl⟩ := List.mem_map.1 h
    exact List.mem_map_of_mem (mem_unique_iff.1 hentry).mem
  · intro h
    obtain ⟨value, hlast⟩ := exists_isLast h
    exact List.mem_map_of_mem (f := Prod.fst) (mem_unique_iff.2 hlast)

end Entries

namespace Rules

open FileTree (run)

variable {tree : FileTree} {paths : List String} {documents : List Rules}

/-- The file at the path is a rules document with these entries. -/
def WrittenAt (tree : FileTree) (path : String) (entries : Rules) : Prop :=
  ∃ text, tree.read path = .ok text ∧ Writes text entries

/-- The name is in two of the documents. -/
def InTwo (documents : List Rules) (name : String) : Prop :=
  ∃ earlier document later, documents = earlier ++ document :: later ∧ Named earlier name ∧
    name ∈ document.names

/-- Files in which documents are written are read as these documents, with the last entries of each
only. -/
theorem readings_of_written (h : List.Forall₂ (WrittenAt tree) paths documents) :
    Readings tree paths (documents.map Entries.unique) none := by
  induction h with
  | nil => exact .nil
  | cons hfirst _ ih =>
    obtain ⟨text, hread, hwrites⟩ := hfirst
    exact .cons hread (ofText_eq_ok_iff.2 ⟨_, hwrites, rfl⟩) ih

/-- If all files were read, in each of them there is a document written. -/
theorem exists_written {read : List Rules} (h : Readings tree paths read none) :
    ∃ documents, List.Forall₂ (WrittenAt tree) paths documents := by
  generalize hstop : (none : Option Error) = stop at h
  induction h with
  | nil => exact ⟨[], .nil⟩
  | cons hread hrules h ih =>
    obtain ⟨documents, hdocuments⟩ := ih hstop
    obtain ⟨entries, hwrites, -⟩ := ofText_eq_ok_iff.1 hrules
    exact ⟨entries :: documents, .cons ⟨_, hread, hwrites⟩ hdocuments⟩
  | unreadable | malformed => cases hstop

/-- There is only one document in a file. -/
theorem WrittenAt.unique {path : String} {entries entries' : Rules}
    (h : WrittenAt tree path entries) (h' : WrittenAt tree path entries') : entries = entries' := by
  obtain ⟨text, hread, hwrites⟩ := h
  obtain ⟨text', hread', hwrites'⟩ := h'
  cases hread.symm.trans hread'
  exact hwrites.unique hwrites'

theorem written_unique {documents' : List Rules} (h : List.Forall₂ (WrittenAt tree) paths documents)
    (h' : List.Forall₂ (WrittenAt tree) paths documents') : documents = documents' := by
  induction h generalizing documents' with
  | nil => cases h'; rfl
  | cons hfirst _ ih =>
    cases h' with
    | cons hfirst' h' => rw [hfirst.unique hfirst', ih h']

/-- Whether documents have names in common does not depend on entries that are written over. -/
theorem separate_map_unique :
    Separate (documents.map Entries.unique) ↔ Separate documents := by
  simp only [Separate, List.pairwise_map, names, Entries.key_mem_unique_iff]

theorem inTwo_map_unique {name : String} (h : InTwo (documents.map Entries.unique) name) :
    InTwo documents name := by
  obtain ⟨_, _, _, hsplit, ⟨_, hother, hname⟩, hname'⟩ := h
  obtain ⟨earlier, rest, rfl, rfl, hrest⟩ := List.map_eq_append_iff.1 hsplit
  obtain ⟨document, later, rfl, rfl, rfl⟩ := List.map_eq_cons_iff.1 hrest
  obtain ⟨other, hmem, rfl⟩ := List.mem_map.1 hother
  exact ⟨earlier, document, later, rfl, ⟨other, hmem, Entries.key_mem_unique_iff.1 hname⟩,
    Entries.key_mem_unique_iff.1 hname'⟩

theorem inTwo_of_firstRepeated {name : String} (h : FirstRepeated documents name) :
    InTwo documents name := by
  obtain ⟨earlier, front, rule, back, later, rfl, -, -, hname⟩ := h
  exact ⟨earlier, _, later, rfl, hname, by simp [names]⟩

/-- Documents are separate if no name is in two of them. -/
theorem separate_iff : Separate documents ↔ ∀ name, ¬ InTwo documents name := by
  constructor
  · rintro hs name ⟨earlier, document, later, rfl, ⟨other, hother, hname⟩, hname'⟩
    exact (List.pairwise_append.1 hs).2.2 other hother document List.mem_cons_self name hname' hname
  · intro h
    refine (separate_or_firstRepeated documents).resolve_right ?_
    rintro ⟨name, hname⟩
    exact h name (inTwo_of_firstRepeated hname)

/-- An entry is kept if and only if it is the last one of its name in its document. -/
theorem mem_flatten_unique_iff (hs : Separate documents) {document : Rules}
    (hdocument : document ∈ documents) {entry : String × Rule} (hentry : entry ∈ document) :
    entry ∈ (documents.map Entries.unique).flatten ↔ Entries.IsLast entry document := by
  simp only [List.mem_flatten, List.mem_map, exists_exists_and_eq_and, Entries.mem_unique_iff]
  refine ⟨fun ⟨other, hother, hlast⟩ => ?_, fun hlast => ⟨document, hdocument, hlast⟩⟩
  -- The name is in no other document.
  obtain rfl : document = other := by
    by_contra hne
    have : Std.Symm fun earlier later : Rules => ∀ name ∈ later.names, name ∉ earlier.names :=
      ⟨fun _ _ h name hname hname' => h name hname' hname⟩
    exact hs.forall hdocument hother hne entry.1 (List.mem_map_of_mem hlast.mem)
      (List.mem_map_of_mem hentry)
  exact hlast

/-- The document gives no name two rules. -/
def Consistent (document : Rules) : Prop :=
  ∀ entry ∈ document, ∀ other ∈ document, entry.1 = other.1 → entry = other

/-- A document is consistent if all of its entries are last ones. -/
theorem consistent_iff {document : Rules} :
    Consistent document ↔ ∀ entry ∈ document, Entries.IsLast entry document := by
  constructor
  · rintro h ⟨name, rule⟩ hentry
    obtain ⟨value, hlast⟩ := Entries.exists_isLast (List.mem_map_of_mem (f := Prod.fst) hentry)
    exact h _ hentry _ hlast.mem rfl ▸ hlast
  · rintro h ⟨name, rule⟩ hentry ⟨_, rule'⟩ hother rfl
    have hrule := Entries.isLast_iff.1 (h _ hentry)
    have hrule' := Entries.isLast_iff.1 (h _ hother)
    exact Prod.ext rfl (Option.some.inj (hrule.symm.trans hrule'))

/-- With no name in two documents, the rules are those of the documents in order. -/
theorem run_loadAll_separate (h : List.Forall₂ (WrittenAt tree) paths documents)
    (hs : Separate documents) :
    run (loadAll paths) tree = (.ok (documents.map Entries.unique).flatten, tree) :=
  run_loadOnto_separate (readings_of_written h) [] (separate_map_unique.2 hs)

/-- Loading succeeds on rules documents only, and each of them has its entries in one way. If a name
is in two of them, it ends with an error that gives such a name. Otherwise the rules are those of
the documents in order, and an entry that is written is kept if and only if it is the last one of
its name in its document. So all of them are kept if and only if no document gives a name two rules:
a name that is repeated in one document is no error. -/
theorem loadAll_written (tree : FileTree) (paths : List String) :
    (∀ rules after, run (loadAll paths) tree = (.ok rules, after) →
      ∃! documents, List.Forall₂ (WrittenAt tree) paths documents) ∧
    ∀ documents, List.Forall₂ (WrittenAt tree) paths documents →
      ((∃ name, InTwo documents name) → ∃ name, InTwo documents name ∧
        run (loadAll paths) tree = (.error (.duplicateRule name), tree)) ∧
      ((∀ name, ¬ InTwo documents name) → ∃ rules,
        run (loadAll paths) tree = (.ok rules, tree) ∧
        rules = (documents.map Entries.unique).flatten ∧
        (∀ document ∈ documents, ∀ entry ∈ document,
          entry.1 ∈ rules.names ∧ (entry ∈ rules ↔ Entries.IsLast entry document)) ∧
        ((∀ document ∈ documents, ∀ entry ∈ document, entry ∈ rules) ↔
          ∀ document ∈ documents, Consistent document)) := by
  have hrepeated {read : List Rules} {stop : Option Error} {name : String}
      (h : Readings tree paths read stop) (hname : FirstRepeated read name) :
      run (loadAll paths) tree = (.error (.duplicateRule name), tree) := by
    obtain ⟨earlier, front, rule, back, later, rfl, hs, hfront, hname⟩ := hname
    exact run_loadOnto_repeated [] earlier h hs hfront hname
  refine ⟨fun rules after h => ?_, fun documents h => ⟨fun ⟨name, hname⟩ => ?_, fun hno => ?_⟩⟩
  · obtain ⟨read, stop, hread⟩ := exists_readings tree paths
    rcases separate_or_firstRepeated read with hs | ⟨name, hname⟩
    · rw [show run (loadAll paths) tree = _ from run_loadOnto_separate hread [] hs] at h
      cases stop with
      | some error => cases h
      | none =>
        obtain ⟨documents, hdocuments⟩ := exists_written hread
        exact ⟨documents, hdocuments, fun _ hother => written_unique hother hdocuments⟩
    · rw [hrepeated hread hname] at h
      cases h
  · have hread := readings_of_written h
    rcases separate_or_firstRepeated (documents.map Entries.unique) with hs | ⟨first, hfirst⟩
    · exact absurd hname (separate_iff.1 (separate_map_unique.1 hs) name)
    · exact ⟨first, inTwo_map_unique (inTwo_of_firstRepeated hfirst), hrepeated hread hfirst⟩
  · have hs := separate_iff.2 hno
    refine ⟨_, run_loadAll_separate h hs, rfl, fun document hdocument entry hentry =>
      ⟨?_, mem_flatten_unique_iff hs hdocument hentry⟩, ?_⟩
    · exact mem_names_flatten.2 ⟨_, List.mem_map_of_mem hdocument,
        Entries.key_mem_unique_iff.2 (List.mem_map_of_mem hentry)⟩
    · refine forall₂_congr fun document hdocument => ?_
      rw [consistent_iff]
      exact forall₂_congr fun entry hentry => mem_flatten_unique_iff hs hdocument hentry

/-- A document that gives a rule to `x`, and then another one. -/
def repeatedText : String :=
  "\x7b\"x\": \x7b\"meta\": \x7b\x7d\x7d, \"x\": \x7b\"meta\": \x7b"
    ++ "\"schema\": [\x7b\"type\": \"string\"\x7d]\x7d\x7d\x7d"

/-- The second rule of `x`. -/
def textRule : Rule := { schema := .sequence [.object [("type", .string "string")]] }

/-- The entries of the document. -/
def repeatedRules : Rules := [("x", {}), ("x", textRule)]

/-- A tree with this document and one with a rule for line ends and one for quotes. -/
def repeatedName : FileTree where
  entries := [(["rules.json"], .file (.text repeatedText)),
    (["layout.json"], .file (.text layoutText))]

theorem writtenAt_repeated : WrittenAt repeatedName "rules.json" repeatedRules := by
  have hfollow : repeatedName.follow "rules.json" =
      .ok (.file ["rules.json"] (.text repeatedText)) :=
    FileTree.follow_eq_ok_iff.2 ⟨⟨by simp, by decide, by decide⟩, by decide +kernel⟩
  exact ⟨repeatedText, FileTree.read_of_follow hfollow (by decide +kernel),
    Json.objectText_of_read closed_readRule (by decide +kernel) (by decide +kernel)⟩

theorem writtenAt_layout : WrittenAt repeatedName "layout.json" layoutRules := by
  have hfollow : repeatedName.follow "layout.json" =
      .ok (.file ["layout.json"] (.text layoutText)) :=
    FileTree.follow_eq_ok_iff.2 ⟨⟨by simp, by decide, by decide⟩, by decide +kernel⟩
  exact ⟨layoutText, FileTree.read_of_follow hfollow (by decide +kernel),
    Json.objectText_of_read closed_readRule (by decide +kernel) (by decide +kernel)⟩

/-- Of the two rules of `x`, the first one is lost. If the document is read twice, there is an
error. -/
theorem loadAll_written_repeatedName :
    (∃ rules, run (loadAll ["rules.json", "layout.json"]) repeatedName = (.ok rules, repeatedName) ∧
      ("x", textRule) ∈ rules ∧ ("x", {}) ∉ rules) ∧
    ∃ name, run (loadAll ["rules.json", "rules.json"]) repeatedName =
      (.error (.duplicateRule name), repeatedName) := by
  constructor
  · have hwritten := List.Forall₂.cons writtenAt_repeated (.cons writtenAt_layout .nil)
    have hs : Separate [repeatedRules, layoutRules] := List.pairwise_pair.2 (by decide)
    obtain ⟨rules, hrun, -, hentries, -⟩ :=
      ((loadAll_written repeatedName _).2 _ hwritten).2 (separate_iff.1 hs)
    have hkept := hentries repeatedRules List.mem_cons_self
    refine ⟨rules, hrun, (hkept ("x", textRule) (by simp [repeatedRules])).2.2
      ⟨[("x", {})], [], rfl, List.not_mem_nil⟩, fun hlost => ?_⟩
    have hlast := Entries.isLast_iff.1 ((hkept ("x", {}) List.mem_cons_self).2.1 hlost)
    simp [repeatedRules, textRule] at hlast
  · have hwritten := List.Forall₂.cons writtenAt_repeated (.cons writtenAt_repeated .nil)
    obtain ⟨name, -, hrun⟩ := ((loadAll_written repeatedName _).2 _ hwritten).1
      ⟨"x", [repeatedRules], repeatedRules, [], rfl,
        ⟨repeatedRules, List.mem_cons_self, List.mem_cons_self⟩, List.mem_cons_self⟩
    exact ⟨name, hrun⟩

/-- A name that one document repeats is no error, and its first rule is lost. -/
theorem loadAll_repeated :
    WrittenAt repeatedName "rules.json" [("x", {}), ("x", textRule)] ∧
      run (loadAll ["rules.json"]) repeatedName = (.ok [("x", textRule)], repeatedName) ∧
      ("x", {}) ∉ [("x", textRule)] := by
  have hwritten := List.Forall₂.cons writtenAt_repeated .nil
  exact ⟨writtenAt_repeated, run_loadAll_separate hwritten (List.pairwise_singleton _ _),
    by simp [textRule]⟩

end Rules

end LintTypes
