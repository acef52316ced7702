import LintTypes.Proofs.BundleRuns
import LintTypes.Proofs.MergedDocuments
import LintTypes.Proofs.Nodes

/-!
# Agreement of the commands

The declarations of a rule are the same whether they are written with those of all other rules or on
their own. Both commands find the same options and rules, since neither changes a file before, and
what only one of them can change about the options is no matter of style. A run for all rules that
succeeded declared each of them, so that none of them fails on its own; and when all files have
different names, each of them still holds at the end what was written for its rule.
-/

namespace LintTypes.FileTree

variable {tree tree' : FileTree} {path text : String}

/-- Which text is written makes no difference to whether it can be. -/
theorem exists_write_of_write (h : tree.write path text = .ok tree') (other : String) :
    ∃ tree', tree.write path other = .ok tree' := by
  obtain ⟨destination, hfollow, hdirectory, hend, -⟩ := follow_of_write h
  have hhold : tree.CanHold path := ⟨destination, hfollow, hdirectory⟩
  obtain ⟨tree', hwrite, -⟩ := hhold.write hend other
  exact ⟨tree', hwrite⟩

end LintTypes.FileTree

namespace LintTypes.Bundle

open FileTree (run)

variable {declarer : Declarer} {options : Options} {rules : Rules} {bundle : Bundle} {dist : String}
  {tree tree' : FileTree}

/-- After the bundle of rules with different files was written, the file of each of them holds the
declarations of the rule that is found by its name. -/
theorem exists_source (h : ofRules declarer options rules = .ok bundle)
    (hnodup : (rules.map fun entry => Names.fileName entry.1).Nodup) {placement : Placement}
    (hrun : run (bundle.write dist) tree = (.ok placement, tree')) {name : String}
    (hname : name ∈ rules.map Prod.fst) :
    name ≠ "" ∧ ∃ rule text, rules.lookup name = some rule ∧
      rule.source declarer options.style (Names.typeIdentifier name) = .ok text ∧
      tree'.read (Path.join (rulesFolder dist) (Names.fileName name ++ ".d.ts")) = .ok text := by
  obtain ⟨⟨_, rule⟩, hmem, rfl⟩ := List.mem_map.1 hname
  have hnames : (rules.map Prod.fst).Nodup := by
    refine List.Nodup.of_map Names.fileName ?_
    rw [List.map_map]
    exact hnodup
  have hfiles : (bundle.files.map DeclarationFile.file).Nodup := by
    rw [map_files_eq (fun hfile => hfile.file_eq) h, List.map_map]
    exact hnodup
  obtain ⟨file, hfile, hentry⟩ := (Schema.forall₂_exists (files_ofRules h)).1 _ hmem
  have hread := (written_of_run hrun).read_of_nodup (slash_not_mem_file h) hfiles file hfile
  refine ⟨fun hempty => ?_, rule, file.source, Entries.lookup_of_mem hnames hmem,
    hentry.source_eq, ?_⟩
  · obtain ⟨_, -, _, -, hrefused⟩ := @ofRules_refused declarer options _ _ _ hmem (.name hempty)
    cases h.symm.trans hrefused
  · rw [rulePath, hentry.file_eq] at hread
    exact hread

end LintTypes.Bundle

namespace LintTypes.Command

open FileTree (OnlyReads)

variable {α β : Type} {tree between tree' : FileTree}

/-! ## Attempts on a tree -/

/-- What comes of an attempt on a tree, and the tree that it leaves. -/
def runOn (tree : FileTree) (action : Attempt (StateM FileTree) α) : Except Failure α × FileTree :=
  Id.run (StateT.run (ExceptT.run action) tree)

theorem runOn_pure_ok_iff {a b : α} :
    runOn tree (pure a) = (.ok b, tree') ↔ a = b ∧ tree = tree' := by
  show (Except.ok a, tree) = (.ok b, tree') ↔ _
  rw [Prod.mk.injEq, Except.ok.injEq]

theorem runOn_bind_ok_iff {action : Attempt (StateM FileTree) α}
    {next : α → Attempt (StateM FileTree) β} {b : β} :
    runOn tree (action >>= next) = (.ok b, tree') ↔
      ∃ a between, runOn tree action = (.ok a, between) ∧ runOn between (next a) = (.ok b, tree') :=
  FileTree.bindExcept_ok_iff

theorem runOn_attempt_ok_iff {action : ExceptT LintTypes.Error (StateM FileTree) α} {a : α} :
    runOn tree (attempt action) = (.ok a, tree') ↔ FileTree.run action tree = (.ok a, tree') :=
  FileTree.mapError_ok_iff

theorem eq_of_onlyReads {action : Attempt (StateM FileTree) α} {a : α} (hr : OnlyReads action.run)
    (h : runOn tree action = (.ok a, tree')) : tree = tree' := by
  have hkept : (runOn tree action).2 = tree := hr tree
  rw [h] at hkept
  exact hkept.symm

/-- A command line that asks for something to be done ends with what comes of that. -/
theorem run_of_ofArguments {line : List String} {verbose : Bool} {task : Task}
    (hline : Invocation.ofArguments line = .ok ⟨verbose, task⟩) (hnoOp : task.noOp = false)
    (tree : FileTree) : (run line : StateM FileTree Exit) tree =
      (.ofResult (runOn tree task.run).1, (runOn tree task.run).2) := by
  rw [run, hline]
  show (Invocation.run ⟨verbose, task⟩ : StateM FileTree Exit) tree = _
  rw [Invocation.run, hnoOp]
  rfl

theorem run_of_runOn {line : List String} {verbose : Bool} {task : Task} {printed : Printed}
    (hline : Invocation.ofArguments line = .ok ⟨verbose, task⟩) (hnoOp : task.noOp = false)
    (h : runOn tree task.run = (.ok printed, tree')) :
    (run line : StateM FileTree Exit) tree = (⟨0, printed⟩, tree') := by
  rw [run_of_ofArguments hline hnoOp, h]
  rfl

/-- Only a task that did not fail ends with the exit code 0. -/
theorem runOn_of_code {line : List String} {verbose : Bool} {task : Task} {exit : Exit}
    (hline : Invocation.ofArguments line = .ok ⟨verbose, task⟩) (hnoOp : task.noOp = false)
    (hrun : (run line : StateM FileTree Exit) tree = (exit, tree')) (hcode : exit.code = 0) :
    ∃ printed, runOn tree task.run = (.ok printed, tree') := by
  rw [run_of_ofArguments hline hnoOp] at hrun
  generalize runOn tree task.run = outcome at hrun ⊢
  obtain ⟨failure | printed, between⟩ := outcome
  · cases hrun
    cases hcode
  · cases hrun
    exact ⟨printed, rfl⟩

/-! ## All rules -/

/-- What a run for all rules may change about the options of the inputs is no matter of style. -/
theorem runOn_options {settings : GenerateSettings} {options : Options}
    (h : runOn tree settings.options = (.ok options, tree')) :
    tree = tree' ∧ ∃ shared, runOn tree settings.inputs.options = (.ok shared, tree) ∧
      shared.style = options.style := by
  obtain ⟨shared, between, hshared, hdone⟩ := runOn_bind_ok_iff.1 h
  obtain ⟨rfl, rfl⟩ := runOn_pure_ok_iff.1 hdone
  obtain rfl := eq_of_onlyReads settings.inputs.reading_options hshared
  exact ⟨rfl, shared, hshared, rfl⟩

/-- A run for all rules succeeds when options and rules are found where it starts and their bundle
can be written. -/
theorem runOn_generate_ok_iff {settings : GenerateSettings} :
    (∃ printed, runOn tree settings.run = (.ok printed, tree')) ↔
      ∃ options rules bundle placement, runOn tree settings.options = (.ok options, tree) ∧
        runOn tree settings.inputs.rules = (.ok rules, tree) ∧
        Bundle.ofRules .standard options rules = .ok bundle ∧
        FileTree.run (bundle.write options.distFolder) tree = (.ok placement, tree') := by
  constructor
  · rintro ⟨printed, h⟩
    obtain ⟨options, between, hoptions, hload⟩ := runOn_bind_ok_iff.1 h
    obtain rfl := (runOn_options hoptions).1
    obtain ⟨rules, between, hrules, hwrite⟩ := runOn_bind_ok_iff.1 hload
    obtain rfl := eq_of_onlyReads settings.inputs.reading_rules hrules
    obtain ⟨placement, between, hgenerate, hdone⟩ := runOn_bind_ok_iff.1 hwrite
    obtain ⟨-, rfl⟩ := runOn_pure_ok_iff.1 hdone
    have hgenerate := runOn_attempt_ok_iff.1 hgenerate
    cases hbundle : Bundle.ofRules .standard options rules with
    | error error =>
      rw [Bundle.run_generate_error hbundle] at hgenerate
      cases hgenerate
    | ok bundle =>
      rw [Bundle.run_generate_ok hbundle] at hgenerate
      exact ⟨options, rules, bundle, placement, hoptions, hrules, hbundle, hgenerate⟩
  · rintro ⟨options, rules, bundle, placement, hoptions, hrules, hbundle, hwrite⟩
    have hgenerate := runOn_attempt_ok_iff.2 ((Bundle.run_generate_ok hbundle tree).trans hwrite)
    exact ⟨_, runOn_bind_ok_iff.2 ⟨options, tree, hoptions,
      runOn_bind_ok_iff.2 ⟨rules, tree, hrules,
        runOn_bind_ok_iff.2 ⟨placement, tree', hgenerate, runOn_pure_ok_iff.2 ⟨rfl, rfl⟩⟩⟩⟩⟩

/-! ## One rule -/

theorem runOn_source {settings : RuleSettings} {options : Options} {rules : Rules} {rule : Rule}
    {text : String} (hname : settings.name ≠ "")
    (hoptions : runOn tree settings.inputs.options = (.ok options, tree))
    (hrules : runOn tree settings.inputs.rules = (.ok rules, tree))
    (hlookup : rules.lookup settings.name = some rule)
    (hsource :
      rule.source .standard options.style (Names.typeIdentifier settings.name) = .ok text) :
    runOn tree settings.source = (.ok text, tree) := by
  have hchecked : Rule.checkName settings.name = .ok () := by
    have hempty : ¬ settings.name.isEmpty = true := by simpa using hname
    rw [Rule.checkName, if_neg hempty]
  refine runOn_bind_ok_iff.2 ⟨(), tree, ?_, ?_⟩
  · rw [hchecked]
    rfl
  refine runOn_bind_ok_iff.2 ⟨options, tree, hoptions, ?_⟩
  refine runOn_bind_ok_iff.2 ⟨rules, tree, hrules, ?_⟩
  rw [hlookup]
  dsimp only
  rw [hsource]
  rfl

theorem runOn_rule_print {settings : RuleSettings} {text : String} (hout : settings.out = none)
    (h : runOn tree settings.source = (.ok text, tree)) :
    runOn tree settings.run = (.ok { out := text ++ "\n" }, tree) := by
  refine runOn_bind_ok_iff.2 ⟨text, tree, h, ?_⟩
  rw [hout]
  rfl

theorem runOn_rule_write {settings : RuleSettings} {text path : String}
    (hout : settings.out = some path) (h : runOn tree settings.source = (.ok text, tree))
    (hwrite : runOn tree (writeOut path text) = (.ok (), tree')) :
    runOn tree settings.run = (.ok {}, tree') := by
  refine runOn_bind_ok_iff.2 ⟨text, tree, h, ?_⟩
  rw [hout]
  exact runOn_bind_ok_iff.2 ⟨(), tree', hwrite, rfl⟩

/-! ## Files of single rules -/

/-- A text can be written to the path, in a folder that is made if it is missing. -/
def Writable (tree : FileTree) (path : String) : Prop :=
  ∃ text tree', runOn tree (writeOut path text) = (.ok (), tree')

/-- Makes the folder of a path. -/
def makeParent (path : String) : Attempt (StateM FileTree) Unit :=
  match Path.parent? path with
  | some parent => ExceptT.mk do
    return (← FileAccess.createDirectories parent).mapError (.creating parent)
  | none => pure ()

theorem runOn_writeOut_ok_iff {path text : String} :
    runOn tree (writeOut path text) = (.ok (), tree') ↔
      ∃ between, runOn tree (makeParent path) = (.ok (), between) ∧
        between.write path text = .ok tree' := by
  have hparts : (writeOut path text : Attempt (StateM FileTree) Unit) =
      makeParent path >>= fun _ => ExceptT.mk do
        return (← FileAccess.write path text).mapError (.writing path) := by
    unfold writeOut makeParent
    cases Path.parent? path <;> rfl
  have hwrite : ∀ between : FileTree, runOn between (ExceptT.mk do
      return (← FileAccess.write path text).mapError (.writing path)) = (.ok (), tree') ↔
        between.write path text = .ok tree' :=
    fun _ => FileTree.mapError_ok_iff.trans FileTree.write_action_ok_iff
  rw [hparts, runOn_bind_ok_iff]
  simp only [hwrite]
  constructor
  · rintro ⟨_, between, hparent, h⟩
    exact ⟨between, hparent, h⟩
  · rintro ⟨between, hparent, h⟩
    exact ⟨(), between, hparent, h⟩

/-- What is written to a writable path can be read there. -/
theorem Writable.writeOut {path : String} (h : Writable tree path) (text : String) :
    ∃ tree', runOn tree (writeOut path text) = (.ok (), tree') ∧ tree'.read path = .ok text := by
  obtain ⟨_, _, hwritten⟩ := h
  obtain ⟨between, hparent, hwrite⟩ := runOn_writeOut_ok_iff.1 hwritten
  obtain ⟨tree', hwrite⟩ := FileTree.exists_write_of_write hwrite text
  exact ⟨tree', runOn_writeOut_ok_iff.2 ⟨between, hparent, hwrite⟩, (FileTree.write_ok hwrite).2.2⟩

theorem Writable.ne_empty {path : String} (h : Writable tree path) : path ≠ "" := by
  obtain ⟨_, _, hwritten⟩ := h
  obtain ⟨between, -, hwrite⟩ := runOn_writeOut_ok_iff.1 hwritten
  obtain ⟨_, hfollow, -⟩ := FileTree.follow_of_write hwrite
  have hempty := (FileTree.follow_eq_ok_iff.1 hfollow).1.2.1
  rintro rfl
  cases hempty

/-! ## Agreement -/

/-- The command line asks for the task. -/
def Asks (line : List String) (task : Task) : Prop :=
  ∃ verbose, Invocation.ofArguments line = .ok ⟨verbose, task⟩

/-- To write the declarations of one rule of the inputs. -/
def RunInputs.ruleTask (inputs : RunInputs) (name : String) (out : Option String) : Task :=
  .rule { inputs, name, out }

/-- A run for all rules that ends well, and runs for single rules that are started on the same tree
with the same inputs. Options and rules are found on that tree without touching it. If the rules
have different files, then for each of them what its file holds in the end is printed, with a line
feed, by every command line that asks for the rule alone, and is written to any path that can be
written to by every line that asks for that. There are such lines. -/
theorem rule_agrees {line : List String} {settings : GenerateSettings} {tree tree' : FileTree}
    {exit : Exit} (hline : Asks line (.generate settings)) (hnoOp : settings.noOp = false)
    (hrun : (run line : StateM FileTree Exit) tree = (exit, tree')) (hcode : exit.code = 0) :
    ∃ options rules, runOn tree settings.options = (.ok options, tree) ∧
      runOn tree settings.inputs.rules = (.ok rules, tree) ∧
      ((rules.map fun entry => Names.fileName entry.1).Nodup →
        ∀ name ∈ rules.map Prod.fst, ∃ text,
          tree'.read (Path.join (Bundle.rulesFolder options.distFolder)
            (Names.fileName name ++ ".d.ts")) = .ok text ∧
          Asks (settings.inputs.ruleTask name none).arguments (settings.inputs.ruleTask name none) ∧
          (∀ line, Asks line (settings.inputs.ruleTask name none) →
            (run line : StateM FileTree Exit) tree = (⟨0, { out := text ++ "\n" }⟩, tree)) ∧
          ∀ path, Writable tree path →
            Asks (settings.inputs.ruleTask name (some path)).arguments
              (settings.inputs.ruleTask name (some path)) ∧
            ∀ line, Asks line (settings.inputs.ruleTask name (some path)) →
              ∃ tree'', (run line : StateM FileTree Exit) tree = (⟨0, {}⟩, tree'') ∧
                tree''.read path = .ok text) := by
  obtain ⟨verbose, hline⟩ := hline
  obtain ⟨printed, htask⟩ := runOn_of_code hline hnoOp hrun hcode
  obtain ⟨options, rules, bundle, placement, hoptions, hrules, hbundle, hwrite⟩ :=
    runOn_generate_ok_iff.1 ⟨printed, htask⟩
  obtain ⟨-, shared, hshared, hstyle⟩ := runOn_options hoptions
  obtain ⟨hinputs, -⟩ := Task.sound_ofArguments hline
  refine ⟨options, rules, hoptions, hrules, fun hnodup name hname => ?_⟩
  obtain ⟨hne, rule, text, hlookup, hsource, hread⟩ :=
    Bundle.exists_source hbundle hnodup hwrite hname
  -- The file was declared in the style of the inputs, which is all that the other command knows of.
  rw [← hstyle] at hsource
  have hfound : ∀ out, runOn tree (RuleSettings.source { inputs := settings.inputs, name, out }) =
      (.ok text, tree) := fun _ => runOn_source hne hshared hrules hlookup hsource
  refine ⟨text, hread, ?_, ?_, fun path hpath => ⟨?_, ?_⟩⟩
  · exact ⟨false, Task.ofArguments_arguments ⟨hinputs, nofun⟩⟩
  · rintro line ⟨verbose, hline⟩
    exact run_of_runOn hline rfl (runOn_rule_print rfl (hfound none))
  · have hout : some path ≠ some "" := fun heq => hpath.ne_empty (Option.some.inj heq)
    exact ⟨false, Task.ofArguments_arguments ⟨hinputs, hout⟩⟩
  · rintro line ⟨verbose, hline⟩
    obtain ⟨tree'', hwritten, hread⟩ := hpath.writeOut text
    have hdone := runOn_rule_write rfl (hfound (some path)) hwritten
    exact ⟨tree'', run_of_runOn hline rfl hdone, hread⟩

/-! ## Two rules -/

theorem runOn_rules_of_read {inputs : RunInputs} {path text : String} {rules : Rules}
    (hinput : inputs.input = [path]) (hplain : Pattern.isPattern path = false)
    (hread : tree.read path = .ok text) (hrules : Rules.ofText text = .ok rules) :
    runOn tree inputs.rules = (.ok rules, tree) := by
  have hload : FileTree.run (Rules.loadAll [path]) tree = (.ok rules, tree) := by
    have hreadings : Rules.Readings tree [path] [rules] none := .cons hread hrules .nil
    have hmerged := Rules.run_loadOnto_separate hreadings [] (List.pairwise_singleton _ _)
    simpa [Rules.loadAll] using hmerged
  have hpaths : runOn tree (inputs.input.mapM resolveInput) = (.ok [[path]], tree) := by
    rw [hinput, List.mapM_cons, resolveInput, hplain]
    rfl
  exact runOn_bind_ok_iff.2 ⟨[[path]], tree, hpaths, runOn_attempt_ok_iff.2 hload⟩

/-- A document with a rule without options and one whose option is one of two words. -/
def twoRulesText : String :=
  "\x7b\"no-eval\": \x7b\"meta\": \x7b\x7d\x7d, \"quotes\": \x7b\"meta\": \x7b"
    ++ "\"schema\": [\x7b\"enum\": [\"single\", \"double\"]\x7d]\x7d\x7d\x7d"

/-- A rule whose option is one of two words. -/
def quotesRule : Rule where
  schema := .sequence [.object [("enum", .array [.string "single", .string "double"])]]

/-- A tree with the rules document and the folder of the rules' files. -/
def twoRules : FileTree where
  entries := [(["rules.json"], .file (.text twoRulesText)), (["dist"], .directory),
    (["rules", "dist"], .directory)]

/-- The inputs with all flags. -/
def flagged : RunInputs := { input := ["rules.json"], semi := true, doubleQuote := true }

/-- The style that the flags make of the default one. -/
def flaggedStyle : Style := { semi := true, singleQuote := false }

theorem runOn_rules_twoRules :
    runOn twoRules flagged.rules = (.ok [("no-eval", {}), ("quotes", quotesRule)], twoRules) := by
  have hplain : Pattern.isPattern "rules.json" = false := by
    show "rules.json".contains _ = false
    rw [String.contains_bool_eq]
    decide
  have hfollow : twoRules.follow "rules.json" = .ok (.file ["rules.json"] (.text twoRulesText)) :=
    FileTree.follow_eq_ok_iff.2 ⟨⟨by simp, by decide, by decide⟩, by decide +kernel⟩
  have hparsed : Rules.ofText twoRulesText = .ok [("no-eval", {}), ("quotes", quotesRule)] := by
    decide +kernel
  exact runOn_rules_of_read rfl hplain (FileTree.read_of_follow hfollow (by decide +kernel)) hparsed

theorem ofRules_twoRules {options : Options} (hstyle : options.style = flaggedStyle) :
    ∃ bundle, Bundle.ofRules .standard options [("no-eval", {}), ("quotes", quotesRule)] =
      .ok bundle := by
  have hbanner : flaggedStyle.BannerIsComment := Style.bannerIsComment_of_empty rfl
  have hlacks : ∀ element ∈ quotesRule.schema.elements, element.Lacks "tsType" := by
    simp [quotesRule, RuleSchema.elements]
  have hmodules : quotesRule.modules flaggedStyle = .ok [[.typeAlias "Schema0"
      (.union [.literal (.string "single"), .literal (.string "double")]) none]] := rfl
  obtain ⟨text, hsource, -⟩ := Rule.printsAs_source hbanner
    (show isIdentifier (Names.typeIdentifier "quotes") = true by decide) hmodules
    (Rule.modules_printable hlacks hmodules)
  have hnone : Rule.source .standard flaggedStyle {} (Names.typeIdentifier "no-eval") =
    .ok _ := Rule.source_nil _ rfl
  refine Bundle.exists_ofRules (List.forall_mem_cons.2 ⟨?_, List.forall_mem_singleton.2 ?_⟩)
  · rw [hstyle]
    exact Bundle.not_refused (by decide) hnone
  · rw [hstyle]
    exact Bundle.not_refused (by decide) hsource

/-- The folder and all files of the bundle have their places in the tree. -/
theorem write_twoRules {options : Options} {bundle : Bundle}
    (hbundle : Bundle.ofRules .standard options [("no-eval", {}), ("quotes", quotesRule)] =
      .ok bundle) :
    ∃ placement tree', FileTree.run (bundle.write "dist") twoRules = (.ok placement, tree') := by
  have hfolder : Bundle.rulesFolder "dist" = "dist/rules" := by decide +kernel
  have hfollow : twoRules.follow "dist/rules" = .ok (.directory ["rules", "dist"]) :=
    FileTree.follow_eq_ok_iff.2 ⟨⟨by simp, by decide, by decide⟩, by decide +kernel⟩
  have hfiles : bundle.files.map DeclarationFile.file = ["no-eval", "quotes"] := by
    rw [Bundle.map_files_eq (fun hfile => hfile.file_eq) hbundle]
    decide +kernel
  have hpaths : ∀ file ∈ bundle.files, twoRules.CanHold (Bundle.rulePath "dist" file) := by
    intro file hmem
    have hfile : file.file ∈ ["no-eval", "quotes"] := hfiles ▸ List.mem_map_of_mem hmem
    rw [Bundle.rulePath, hfolder]
    simp only [List.mem_cons, List.not_mem_nil, or_false] at hfile
    rcases hfile with heq | heq
    · have hpath : Path.join "dist/rules" ("no-eval" ++ ".d.ts") = "dist/rules/no-eval.d.ts" := by
        decide +kernel
      rw [heq, hpath]
      exact FileTree.canHold_of_walk ⟨by simp, by decide, by decide⟩
        ["no-eval.d.ts", "rules", "dist"] (by decide +kernel)
    · have hpath : Path.join "dist/rules" ("quotes" ++ ".d.ts") = "dist/rules/quotes.d.ts" := by
        decide +kernel
      rw [heq, hpath]
      exact FileTree.canHold_of_walk ⟨by simp, by decide, by decide⟩
        ["quotes.d.ts", "rules", "dist"] (by decide +kernel)
  have hindex : twoRules.CanHold (Bundle.indexPath "dist") := by
    have hpath : Bundle.indexPath "dist" = "dist/index.d.ts" := by decide +kernel
    rw [hpath]
    exact FileTree.canHold_of_walk ⟨by simp, by decide, by decide⟩ ["index.d.ts", "dist"]
      (by decide +kernel)
  refine Bundle.run_write_succeeds (Bundle.slash_not_mem_file hbundle) ?_ hpaths hindex
  rw [Bundle.makeFolder, hfolder]
  exact FileTree.createDirectories_of_directory hfollow

theorem writable_twoRules : Writable twoRules "quotes.d.ts" := by
  have hhold : twoRules.CanHold "quotes.d.ts" :=
    FileTree.canHold_of_walk ⟨by simp, by decide, by decide⟩ ["quotes.d.ts"] (by decide +kernel)
  obtain ⟨written, hwrite, -⟩ := hhold.write (by decide +kernel) ""
  exact ⟨"", written, runOn_writeOut_ok_iff.2 ⟨twoRules, by rfl, hwrite⟩⟩

/-- Both rules are written by one command and one of them by the other, with the flags in any
place. -/
theorem rule_agrees_quotes :
    ∃ exit tree' text tree'',
      (run ["generate", "--semi", "--input=rules.json", "--double-quote"] : StateM FileTree Exit)
        twoRules = (exit, tree') ∧ exit.code = 0 ∧
      tree'.read "dist/rules/quotes.d.ts" = .ok text ∧
      (run ["rule", "--name=quotes", "--double-quote", "--semi", "-i", "rules.json"] :
        StateM FileTree Exit) twoRules = (⟨0, { out := text ++ "\n" }⟩, twoRules) ∧
      (run ["rule", "-irules.json", "--semi", "--double-quote", "--name", "quotes",
        "-o", "quotes.d.ts"] : StateM FileTree Exit) twoRules = (⟨0, {}⟩, tree'') ∧
      tree''.read "quotes.d.ts" = .ok text := by
  have hline : Invocation.ofArguments ["generate", "--semi", "--input=rules.json",
      "--double-quote"] = .ok ⟨false, .generate { inputs := flagged }⟩ := by
    rfl
  have hoptions : runOn twoRules (GenerateSettings.options { inputs := flagged }) =
      (.ok { style := flaggedStyle }, twoRules) := rfl
  obtain ⟨bundle, hbundle⟩ := @ofRules_twoRules { style := flaggedStyle } rfl
  obtain ⟨placement, tree', hwrite⟩ := write_twoRules hbundle
  obtain ⟨printed, htask⟩ := runOn_generate_ok_iff.2
    ⟨_, _, bundle, placement, hoptions, runOn_rules_twoRules, hbundle, hwrite⟩
  have hrun := run_of_runOn hline rfl htask
  obtain ⟨options, rules, hfound, hloaded, hagrees⟩ := rule_agrees ⟨false, hline⟩ rfl hrun rfl
  cases hoptions.symm.trans hfound
  cases runOn_rules_twoRules.symm.trans hloaded
  obtain ⟨text, hread, -, hprint, hout⟩ := hagrees (by decide +kernel) "quotes" (by decide)
  obtain ⟨tree'', hwritten, htext⟩ := (hout "quotes.d.ts" writable_twoRules).2
    ["rule", "-irules.json", "--semi", "--double-quote", "--name", "quotes", "-o", "quotes.d.ts"]
    ⟨false, by rfl⟩
  have hpath : Path.join (Bundle.rulesFolder "dist") (Names.fileName "quotes" ++ ".d.ts") =
      "dist/rules/quotes.d.ts" := by decide +kernel
  exact ⟨_, tree', text, tree'', hrun, rfl, hpath ▸ hread,
    hprint ["rule", "--name=quotes", "--double-quote", "--semi", "-i", "rules.json"]
      ⟨false, by rfl⟩, hwritten, htext⟩

end LintTypes.Command
