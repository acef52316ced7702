import LintTypes.Proofs.BundleRuns
import LintTypes.Proofs.JoinedTexts
import LintTypes.Proofs.NameableNames
import LintTypes.Proofs.RuleErrors

/-!
# The identifiers of rules

The type of a rule stands behind `export type` in the rule's own file, and in the index between the
braces of an import and behind the rule's name. For a nameable rule it is an identifier there: the
lines of the index are well-formed, and the alias can be read behind the declarations of the rule's
schemas, whatever turns these into text.
-/

namespace LintTypes

open Source

/-! ## Texts of declarers -/

/-- Every text ends with a line feed. -/
def Declarer.EndsLines (declarer : Declarer) : Prop :=
  ∀ ⦃schema name style text⦄, declarer schema name style = .ok text →
    text.toList.getLast? = some '\n'

theorem Declarations.getLast?_render (style : Style) {declarations : Declarations}
    (h : declarations ≠ []) :
    (Declarations.render style declarations).toList.getLast? = some '\n' := by
  obtain ⟨others, last, rfl⟩ := List.eq_nil_or_concat declarations |>.resolve_left h
  simp [Declarations.render, Declarations.body, String.join_append]

/-- What is printed for declarations ends with a line feed. -/
theorem Declarer.standard_endsLines : Declarer.standard.EndsLines := by
  intro schema name style text h
  unfold Declarer.standard at h
  split at h
  · rename_i declarations hdecl
    cases h
    exact Declarations.getLast?_render style (Schema.declarations_ne_nil hdecl)
  · cases h

/-- Texts of declarations behind each other. -/
theorem Declarations.ofSource_join {texts : List String} {modules : List Declarations}
    {last : String} {declarations : Declarations}
    (hends : ∀ text ∈ texts, text.toList.getLast? = some '\n')
    (h : List.Forall₂ (fun text module => Declarations.ofSource text = .ok module) texts modules)
    (hlast : Declarations.ofSource last = .ok declarations) :
    Declarations.ofSource (String.join texts ++ last) = .ok (modules.flatten ++ declarations) := by
  induction h with
  | nil => simpa using hlast
  | @cons text module texts modules hread _ ih =>
    obtain ⟨hend, hends⟩ := List.forall_mem_cons.1 hends
    have hall := Declarations.ofSource_append hend hread (ih hends)
    simpa only [String.join_cons, List.flatten_cons, String.append_assoc, List.append_assoc]
      using hall

namespace Rule

variable {declarer : Declarer} {style : Style} {rule : Rule} {name : String}

/-- The alias that joins the schemas of a rule is read back as their joined type. -/
theorem ofSource_alias (hname : isIdentifier name = true) {modules : List Declarations}
    {complete : Bool} (hc : ∀ module, modules = [module] → complete = offersLists module) :
    Declarations.ofSource
        ("export type " ++ name ++ " = " ++ joinedTypeText modules.length complete) =
      .ok [.typeAlias name (optionsType modules) none] := by
  obtain ⟨tokens, hform, hprints⟩ := printsAs_alias hname (printsAs_joinedType hc)
  exact Declarations.ofSource_spells hform hprints.spells

/-- If the texts of a rule's schemas can be read, so can its own text. -/
theorem ofSource_of_texts (hd : declarer.EndsLines) (hname : isIdentifier name = true)
    {texts : List String} {modules : List Declarations} {source : String}
    (htexts : declareElements declarer style rule.schema.elements = .ok texts)
    (h : List.Forall₂ (fun text module => Declarations.ofSource text = .ok module) texts modules)
    (hsource : rule.source declarer style name = .ok source) :
    Declarations.ofSource source =
      .ok (modules.flatten ++ [.typeAlias name (optionsType modules) none]) := by
  have hends : ∀ text ∈ texts, text.toList.getLast? = some '\n' := by
    intro text htext
    obtain ⟨⟨element, index⟩, -, hmade⟩ :=
      (Schema.forall₂_exists (mapM_ok_iff.1 htexts)).2 text htext
    exact hd hmade
  cases h with
  | nil =>
    have hempty : joinedTypeText 0 false = "[]" := by decide
    have halias := @ofSource_alias name hname [] false nofun
    rw [List.length_nil, hempty, String.append_assoc] at halias
    rw [source_nil name htexts] at hsource
    cases hsource
    rw [String.append_assoc]
    exact halias
  | @cons first module others modules hfirst hothers =>
    cases module with
    | nil =>
      have hshape : firstShape first = .error (.unparseableSource .noDeclaration) := by
        rw [firstShape, hfirst]
      rw [source_error htexts hshape] at hsource
      cases hsource
    | cons declaration declarations =>
      have hshape : firstShape first = .ok declaration.shape := by rw [firstShape, hfirst]
      rw [source_cons name htexts hshape] at hsource
      cases hsource
      have halias := @ofSource_alias name hname ((declaration :: declarations) :: modules)
        (decide (declaration.shape = .unionOfTuples)) (by
          rintro _ ⟨⟩
          exact offersLists_iff.symm)
      have hall := Declarations.ofSource_join hends (.cons hfirst hothers) halias
      have hlength := hothers.length_eq
      simpa only [List.length_cons, hlength] using hall

end Rule

/-! ## Lines of the index -/

/-- A character that can stand between single quotes as it is. -/
def IsQuotable (c : Char) : Prop := c ∉ ['\'', '\\', '\n', '\r']

instance : DecidablePred IsQuotable := fun _ => inferInstanceAs (Decidable (_ ∉ _))

/-- A text that can stand between single quotes as it is, on one line. -/
def Quotable (text : String) : Prop := ∀ c ∈ text.toList, IsQuotable c

instance : DecidablePred Quotable := fun text =>
  inferInstanceAs (Decidable (∀ c ∈ text.toList, IsQuotable c))

namespace Names

theorem isQuotable_of_isNameChar {c : Char} (h : isNameChar c = true) : IsQuotable c :=
  holds_of_isNameChar (P := fun c => isNameChar c = true → IsQuotable c) (by decide +kernel) h h

/-- No character that a nameable name begins with needs to be escaped, -/
theorem BeginsNameable.isQuotable {c : Char} (h : BeginsNameable c) : IsQuotable c := by
  have hcapitals : ∀ c ∈ Casing.asciiCapitalized, IsQuotable c := by decide
  rcases h with rfl | hstart | hmem
  · decide
  · exact isQuotable_of_isNameChar (isNameChar_of_isNameStart hstart)
  · exact hcapitals c hmem

/-- and none that it goes on with. -/
theorem ContinuesNameable.isQuotable {text : List Char} (h : ContinuesNameable text) :
    ∀ c ∈ text, IsQuotable c := by
  induction h with
  | nil => exact nofun
  | char hc _ ih => exact List.forall_mem_cons.2 ⟨isQuotable_of_isNameChar hc, ih⟩
  | slash _ ih => exact List.forall_mem_cons.2 ⟨by decide, ih⟩
  | hyphen hc _ ih =>
    exact List.forall_mem_cons.2 ⟨by decide,
      List.forall_mem_cons.2 ⟨isQuotable_of_isNameChar (isNameChar_of_isWordChar hc), ih⟩⟩

/-- A nameable rule can be quoted by its name, -/
theorem Nameable.quotable {name : String} (h : Nameable name) : Quotable name := by
  obtain ⟨c, rest, hname, hc, hrest⟩ := h
  rw [Quotable, hname]
  exact List.forall_mem_cons.2 ⟨hc.isQuotable, hrest.isQuotable⟩

/-- and by the name of its file. -/
theorem Nameable.quotable_fileName {name : String} (h : Nameable name) :
    Quotable (fileName name) := by
  have hlower : ∀ c, isWordChar c = true → IsQuotable c.toLower := fun c hc =>
    holds_of_isNameChar (P := fun c => isWordChar c = true → IsQuotable c.toLower)
      (by decide +kernel) (isNameChar_of_isWordChar hc) hc
  rw [Quotable, fileName, String.toList_ofList]
  exact forall_mem_flattenSlashes Char.toLower (by decide) hlower fun c hc => .inl (h.quotable c hc)

end Names

/-- The text spells the tokens and has no line break. -/
def OnOneLine (tokens : List Token) (text : String) : Prop :=
  Spells tokens text.toList ∧ ∀ c ∈ text.toList, c ≠ '\n' ∧ c ≠ '\r'

theorem IsQuotable.ne {c : Char} (h : IsQuotable c) : c ≠ '\n' ∧ c ≠ '\r' := by
  simp only [IsQuotable, List.mem_cons, List.not_mem_nil, or_false, not_or] at h
  exact h.2.2

theorem quotable_of_isIdentifier {text : String} (h : isIdentifier text = true) : Quotable text :=
  fun _ hc => Names.isQuotable_of_isNameChar (isNameChar_of_mem h hc)

/-- A text that stands for itself between single quotes; it may have line breaks. -/
def Unescaped (text : String) : Prop := '\'' ∉ text.toList ∧ '\\' ∉ text.toList

instance : DecidablePred Unescaped := fun _ => inferInstanceAs (Decidable (_ ∧ _))

theorem Quotable.unescaped {text : String} (h : Quotable text) : Unescaped text :=
  ⟨fun hmem => absurd (h _ hmem) (by decide), fun hmem => absurd (h _ hmem) (by decide)⟩

theorem quoted_of_unescaped {text : List Char} (hq : '\'' ∉ text) (hs : '\\' ∉ text) :
    Quoted '\'' text text := by
  induction text with
  | nil => exact .nil
  | cons c text ih =>
    obtain ⟨hc, hq⟩ := not_or.1 (List.mem_cons.not.1 hq)
    obtain ⟨hc', hs⟩ := not_or.1 (List.mem_cons.not.1 hs)
    exact .plain (Ne.symm hc) (Ne.symm hc') (ih hq hs)

/-- A text that stands for itself is a string between quotes. -/
theorem prints_unescaped {text : String} (h : Unescaped text) {tokens : List Token}
    {rest : List Char} (hr : Prints tokens rest) :
    Prints (.string text :: tokens) ('\'' :: (text.toList ++ '\'' :: rest)) := by
  have hall := hr.token (.string (.inl rfl) (quoted_of_unescaped h.1 h.2)) fun _ _ => trivial
  simpa using hall

namespace DeclarationFile

variable {file : DeclarationFile} {rulesPrefix : String}

/-- What brings in the type of a file. -/
def importTokens (file : DeclarationFile) : List Token :=
  [.name "import", .name "type", .symbol '{', .name file.identifier, .symbol '}', .name "from",
    .string ("./rules/" ++ file.file)]

/-- What maps a rule to its type. -/
def entryTokens (rulesPrefix : String) (file : DeclarationFile) : List Token :=
  [.string (rulesPrefix ++ file.rule), .symbol ':', .name file.identifier]

/-- An entry of the index prints its tokens. -/
theorem prints_indexEntry (h : Unescaped (rulesPrefix ++ file.rule))
    (hi : isIdentifier file.identifier = true) :
    Prints (entryTokens rulesPrefix file) (file.indexEntry rulesPrefix).toList := by
  have htype : Prints [.symbol ':', .name file.identifier]
      (':' :: ' ' :: file.identifier.toList) := by
    have hname := Prints.identifier hi apart_nil prints_nil
    rw [List.append_nil] at hname
    exact Prints.symbol (by decide) hname.space
  have hall := (prints_unescaped h htype).space.space
  simpa [indexEntry, entryTokens] using hall

-- An equation of the definition would be looked for in the characters of its first text.
theorem importLine_eq (file : DeclarationFile) :
    file.importLine =
      "import type \x7b " ++ file.identifier ++ " \x7d from './rules/" ++ file.file ++ "'" := rfl

/-- A line that brings in a type prints its tokens. -/
theorem prints_importLine (hf : Quotable file.file) (hi : isIdentifier file.identifier = true) :
    Prints file.importTokens file.importLine.toList := by
  have hquotable : Quotable ("./rules/" ++ file.file) := by
    rw [Quotable, String.toList_append]
    exact List.forall_mem_append.2 ⟨by decide, hf⟩
  have hword : ∀ {s : String} {tokens : List Token} {text : List Char}, isIdentifier s = true →
      Prints tokens text → Prints (.name s :: tokens) (s.toList ++ ' ' :: text) := fun hs h =>
    Prints.identifier hs (apart_space _) h.space
  have hfrom := hword (s := "from") (by decide) (prints_unescaped hquotable.unescaped prints_nil)
  have htype := hword hi (Prints.symbol (c := '}') (by decide) hfrom.space)
  have hopen := Prints.symbol (c := '{') (by decide) htype.space
  have hall := hword (s := "import") (by decide) (hword (s := "type") (by decide) hopen)
  rw [importLine_eq]
  simpa [importTokens] using hall

/-- Such a line is one line, so its tokens are all that can be read off it. -/
theorem onOneLine_importLine (hf : Quotable file.file) (hi : isIdentifier file.identifier = true) :
    OnOneLine file.importTokens file.importLine := by
  refine ⟨(prints_importLine hf hi).spells, ?_⟩
  simp only [importLine_eq, String.toList_append, List.forall_mem_append]
  exact ⟨⟨⟨⟨by decide, fun c hc => (quotable_of_isIdentifier hi c hc).ne⟩, by decide⟩,
    fun c hc => (hf c hc).ne⟩, by decide⟩

theorem onOneLine_indexEntry (hp : Quotable rulesPrefix) (hr : Quotable file.rule)
    (hi : isIdentifier file.identifier = true) :
    OnOneLine (entryTokens rulesPrefix file) (file.indexEntry rulesPrefix) := by
  have hquotable : Quotable (rulesPrefix ++ file.rule) := by
    rw [Quotable, String.toList_append]
    exact List.forall_mem_append.2 ⟨hp, hr⟩
  refine ⟨(prints_indexEntry hquotable.unescaped hi).spells, ?_⟩
  simp only [indexEntry, String.toList_append, List.forall_mem_append]
  exact ⟨⟨⟨⟨by decide, fun c hc => (hp c hc).ne⟩, fun c hc => (hr c hc).ne⟩, by decide⟩,
    fun c hc => (quotable_of_isIdentifier hi c hc).ne⟩

/-- The member of the index's type that maps a rule to its type. -/
def indexMember (rulesPrefix : String) (file : DeclarationFile) : Member :=
  .property (rulesPrefix ++ file.rule) (.named file.identifier) false none

/-- An entry of the index prints the member that it stands for. -/
theorem printsAs_indexEntry (h : Unescaped (rulesPrefix ++ file.rule))
    (hi : isIdentifier file.identifier = true) (hr : file.identifier ∉ reservedNames) :
    PrintsAs (MemberForm Written) (file.indexMember rulesPrefix) (file.indexEntry rulesPrefix) := by
  refine ⟨entryTokens rulesPrefix file, ?_, prints_indexEntry h hi⟩
  have htype : Written (.named file.identifier) [.name file.identifier] :=
    BareForm.written (PrimaryForm.reference hr)
  exact .member false false (.quoted _) htype

end DeclarationFile

theorem membersForm_of_joined {members : List Member} {tokens : List Token}
    (h : Joined (MemberForm Written) (.symbol ',') members tokens) :
    MembersForm Written members tokens := by
  induction h with
  | single h => simpa using MembersForm.cons h (.inl rfl) .nil
  | cons h _ ih => exact .cons h (.inr (.inr rfl)) ih

/-- The part of the index that maps the rules to their types. -/
def mappingSource (files : List DeclarationFile) (rulesPrefix : String) : String :=
  "export type RuleOptions = \x7b\n"
    ++ ",\n".intercalate (files.map (DeclarationFile.indexEntry rulesPrefix)) ++ "\n\x7d"

theorem mappingSource_eq (files : List DeclarationFile) (rulesPrefix : String) :
    mappingSource files rulesPrefix = "export type RuleOptions = \x7b\n"
      ++ ",\n".intercalate (files.map (DeclarationFile.indexEntry rulesPrefix)) ++ "\n\x7d" := rfl

theorem indexSource_eq (files : List DeclarationFile) (rulesPrefix : String) :
    indexSource files rulesPrefix =
      "\n".intercalate (files.map DeclarationFile.importLine) ++ "\n\n" ++
        mappingSource files rulesPrefix := by
  refine String.toList_inj.1 ?_
  simp [indexSource, mappingSource_eq]

/-- The mapping is read as a type with a member for each rule, if all names stand for themselves. -/
theorem ofSource_mappingSource_unescaped {files : List DeclarationFile} {rulesPrefix : String}
    (hi : ∀ file ∈ files, isIdentifier file.identifier = true ∧ file.identifier ∉ reservedNames)
    (h : ∀ file ∈ files, Unescaped (rulesPrefix ++ file.rule)) :
    Declarations.ofSource (mappingSource files rulesPrefix) = .ok [.typeAlias "RuleOptions"
      (.object (files.map (DeclarationFile.indexMember rulesPrefix))) none] := by
  have hgap : Separates ',' ",\n".toList :=
    ⟨by decide, [], ['\n'], rfl, .nil, .space (by decide) .nil⟩
  have hentries : List.Forall₂ (PrintsAs (MemberForm Written))
      (files.map (DeclarationFile.indexMember rulesPrefix))
      (files.map (DeclarationFile.indexEntry rulesPrefix)) := by
    rw [List.forall₂_map_left_iff, List.forall₂_map_right_iff, List.forall₂_same]
    exact fun file hfile =>
      DeclarationFile.printsAs_indexEntry (h file hfile) (hi file hfile).1 (hi file hfile).2
  have hmembers : PrintsAs (MembersForm Written)
      (files.map (DeclarationFile.indexMember rulesPrefix))
      (",\n".intercalate (files.map (DeclarationFile.indexEntry rulesPrefix))) := by
    cases files with
    | nil => exact ⟨[], .nil, prints_nil⟩
    | cons file files =>
      exact (printsAs_intercalate hgap hentries (List.cons_ne_nil _ _)).imp fun _ =>
        membersForm_of_joined
  obtain ⟨tokens, hform, hprints⟩ := hmembers
  have hclose := (Prints.symbol (c := '}') (by decide) prints_nil).newline
  have hblock := Prints.symbol (c := '{') (by decide)
    (hprints.append hclose (apart_newline _)).newline
  have hobject : PrintsAs BareForm
      (.object (files.map (DeclarationFile.indexMember rulesPrefix)))
      ("\x7b\n" ++ ",\n".intercalate (files.map (DeclarationFile.indexEntry rulesPrefix)) ++
        "\n\x7d") := by
    refine ⟨_, PrimaryForm.object hform, ?_⟩
    simpa using hblock
  have hname : isIdentifier "RuleOptions" = true := by decide
  obtain ⟨all, hall, hprints⟩ := Rule.printsAs_alias hname hobject
  refine Declarations.ofSource_spells hall ?_
  rw [mappingSource_eq]
  simpa using hprints.spells

/-- The mapping of the index is read back: each rule under its name, with the type of its
identifier. -/
theorem ofSource_mappingSource {files : List DeclarationFile} {rulesPrefix : String}
    (hp : Quotable rulesPrefix)
    (h : ∀ file ∈ files, Quotable file.rule ∧ Names.IsTitleName file.identifier) :
    Declarations.ofSource (mappingSource files rulesPrefix) = .ok [.typeAlias "RuleOptions"
      (.object (files.map (DeclarationFile.indexMember rulesPrefix))) none] := by
  refine ofSource_mappingSource_unescaped (fun file hfile => ?_) fun file hfile => ?_
  · exact ⟨(h file hfile).2.isIdentifier, (h file hfile).2.not_reserved⟩
  · refine Quotable.unescaped ?_
    rw [Quotable, String.toList_append]
    exact List.forall_mem_append.2 ⟨hp, (h file hfile).1⟩

/-! ## Bundles -/

/-- A rule can be used under the name of its type. The name is an identifier, the lines of the index
about the file are well-formed, and the file can be read if the texts of the rule's schemas can. -/
structure DeclarationFile.Usable (declarer : Declarer) (options : Options) (rule : Rule)
    (file : DeclarationFile) : Prop where
  isIdentifier : isIdentifier file.identifier = true
  importLine : OnOneLine file.importTokens file.importLine
  indexEntry : OnOneLine (entryTokens options.rulesPrefix file)
    (file.indexEntry options.rulesPrefix)
  source : ∀ texts modules,
    Rule.declareElements declarer options.style rule.schema.elements = .ok texts →
    List.Forall₂ (fun text module => Declarations.ofSource text = .ok module) texts modules →
    Declarations.ofSource file.source =
      .ok (modules.flatten ++ [.typeAlias file.identifier (Rule.optionsType modules) none])

namespace Bundle

variable {declarer : Declarer} {options : Options} {rules : Rules} {bundle : Bundle}

theorem index_ofRules (h : ofRules declarer options rules = .ok bundle) :
    bundle.index = indexSource bundle.files options.rulesPrefix := by
  unfold ofRules at h
  generalize rules.mapM (m := Except Error) _ = made at h
  cases made with
  | error error => cases h
  | ok files =>
    cases h
    rfl

/-- The file of a nameable rule can be named in the index. -/
theorem usable_of_isFileOf (hd : declarer.EndsLines) (hp : Quotable options.rulesPrefix)
    {name : String} {rule : Rule} {file : DeclarationFile}
    (hfile : IsFileOf declarer options.style name rule file) (hname : Names.Nameable name) :
    file.Usable declarer options rule := by
  have hi : isIdentifier file.identifier = true := by
    rw [hfile.identifier_eq]
    exact (Names.isTitleName_typeIdentifier hname).isIdentifier
  have hrule : Quotable file.rule := hfile.rule_eq ▸ hname.quotable
  have hstem : Quotable file.file := hfile.file_eq ▸ hname.quotable_fileName
  refine ⟨hi, DeclarationFile.onOneLine_importLine hstem hi,
    DeclarationFile.onOneLine_indexEntry hp hrule hi, fun texts modules htexts hread => ?_⟩
  exact Rule.ofSource_of_texts hd hi htexts hread (hfile.identifier_eq ▸ hfile.source_eq)

/-- The name of a rule's type is an identifier if and only if the rule is nameable. Then the lines
of the index about the rule are well-formed, and the rule's file can be read if the texts of its
schemas can. If all rules are nameable, what stands behind the imports is read as the mapping of the
rules to their types. -/
theorem ofRules_nameable (declarer : Declarer) (options : Options) (rules : Rules) :
    (∀ entry ∈ rules, isIdentifier (Names.typeIdentifier entry.1) = true ↔
      Names.Nameable entry.1) ∧
    (declarer.EndsLines → Quotable options.rulesPrefix →
      ∀ bundle, ofRules declarer options rules = .ok bundle →
        List.Forall₂ (fun entry file => Names.Nameable entry.1 →
          file.Usable declarer options entry.2) rules bundle.files ∧
        ((∀ entry ∈ rules, Names.Nameable entry.1) →
          ∃ mapping, bundle.index =
              "\n".intercalate (bundle.files.map DeclarationFile.importLine) ++ "\n\n" ++ mapping ∧
            Declarations.ofSource mapping = .ok [.typeAlias "RuleOptions" (.object
              (bundle.files.map (DeclarationFile.indexMember options.rulesPrefix))) none])) := by
  refine ⟨fun entry _ => Names.isIdentifier_typeIdentifier_iff, fun hd hp bundle h => ?_⟩
  refine ⟨(files_ofRules h).imp fun _ _ hfile => usable_of_isFileOf hd hp hfile, fun hnames => ?_⟩
  refine ⟨mappingSource bundle.files options.rulesPrefix, ?_, ?_⟩
  · rw [← indexSource_eq, index_ofRules h]
  · refine ofSource_mappingSource hp fun file hmem => ?_
    obtain ⟨entry, hentry, hfile⟩ := (Schema.forall₂_exists (files_ofRules h)).2 file hmem
    rw [hfile.rule_eq, hfile.identifier_eq]
    exact ⟨(hnames entry hentry).quotable,
      Names.isTitleName_typeIdentifier (hnames entry hentry)⟩

/-- A rule with one option, which may be anything. -/
def openRule : Rule where
  schema := .single (.bool true)

/-- The name of the rule is nameable, and the text of its schema can be read. -/
theorem ofRules_nameable_openRule :
    ∃ bundle file, ofRules .standard {} [("style/max-2", openRule)] = .ok bundle ∧
      bundle.files = [file] ∧ file.identifier = "Style_Max2" ∧
      Declarations.ofSource file.source = .ok [.typeAlias "Schema0" (.keyword .unknown) none,
        .typeAlias "Style_Max2" (.tuple [.optional (.named "Schema0")]) none] ∧
      ∃ mapping, bundle.index = file.importLine ++ "\n\n" ++ mapping ∧
        Declarations.ofSource mapping = .ok [.typeAlias "RuleOptions"
          (.object [.property "style/max-2" (.named "Style_Max2") false none]) none] := by
  have hbanner : Style.BannerIsComment {} := Style.bannerIsComment_of_empty rfl
  have hlacks : ∀ element ∈ openRule.schema.elements, element.Lacks "tsType" := by
    simp [openRule, RuleSchema.elements]
  have hmodules : openRule.modules {} = .ok [[.typeAlias "Schema0" (.keyword .unknown) none]] := rfl
  have hprintable := Rule.modules_printable hlacks hmodules
  have hname : Names.Nameable "style/max-2" :=
    ⟨'s', "tyle".toList ++ '/' :: ("max".toList ++ '-' :: '2' :: []), rfl, .inr (.inl (by decide)),
      .append (by decide) (.slash (.append (by decide) (.hyphen (by decide) .nil)))⟩
  obtain ⟨text, hsource, -⟩ := Rule.printsAs_source hbanner
    (Names.isTitleName_typeIdentifier hname).isIdentifier hmodules hprintable
  obtain ⟨bundle, hbundle⟩ : ∃ bundle,
      ofRules .standard {} [("style/max-2", openRule)] = .ok bundle :=
    exists_ofRules (List.forall_mem_singleton.2 (not_refused (by decide) hsource))
  have htext : Declarations.ofSource (Declarations.render {} [.typeAlias "Schema0" .unknown none]) =
      .ok [.typeAlias "Schema0" .unknown none] :=
    Declarations.ofSource_remains hbanner (hprintable _ (List.mem_cons_self ..)).2
  obtain ⟨husable, hindex⟩ := (ofRules_nameable .standard {} [("style/max-2", openRule)]).2
    Declarer.standard_endsLines (by decide) bundle hbundle
  obtain ⟨mapping, hmapping, hread⟩ := hindex (List.forall_mem_singleton.2 hname)
  cases hfiles : bundle.files with
  | nil =>
    rw [hfiles] at husable
    cases husable
  | cons file files =>
    rw [hfiles] at husable hread hmapping
    obtain ⟨hfirst, hnone⟩ := List.forall₂_cons.1 husable
    obtain rfl := List.forall₂_nil_left_iff.1 hnone
    have hof := files_ofRules hbundle
    rw [hfiles] at hof
    have hfile := (List.forall₂_cons.1 hof).1
    have hidentifier : file.identifier = "Style_Max2" :=
      hfile.identifier_eq.trans (by decide +kernel)
    have hsource := (hfirst hname).source _ _ (Rule.declareElements_eq hmodules)
      (.cons htext .nil)
    rw [hidentifier] at hsource
    refine ⟨bundle, file, hbundle, hfiles, hidentifier, hsource, mapping, ?_, ?_⟩
    · simpa using hmapping
    · have hmember : file.indexMember "" =
          .property "style/max-2" (.named "Style_Max2") false none := by
        rw [DeclarationFile.indexMember, hidentifier, hfile.rule_eq]
        rfl
      rw [← hmember]
      exact hread

/-- The digit in front of a name stays in front of the type's name, where that of a title would get
an underscore before it; the text of the rule cannot be read. -/
theorem ofSource_choice :
    Rule.checkName "1st-choice" = .ok () ∧ Names.titleIdentifier "1st choice" = "_1stChoice" ∧
      Names.typeIdentifier "1st-choice" = "1stChoice" ∧ isIdentifier "1stChoice" = false ∧
      (ofRules .standard {} (optionless ["1st-choice"])).toOption.map Bundle.files =
        some [⟨"1st-choice", "1stChoice", "1st-choice", "export type 1stChoice = []"⟩] ∧
      ∃ error, Declarations.ofSource "export type 1stChoice = []" = .error error := by
  refine ⟨rfl, by decide +kernel, by decide +kernel, by decide, by decide +kernel, ?_⟩
  cases hread : Declarations.ofSource "export type 1stChoice = []" with
  | error error => exact ⟨error, rfl⟩
  | ok declarations =>
    have hfails : (Declarations.ofSource "export type 1stChoice = []").isOk = false := by
      decide +kernel
    rw [hread] at hfails
    cases hfails

end Bundle

end LintTypes
