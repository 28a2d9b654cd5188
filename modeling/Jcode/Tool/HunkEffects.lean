import Jcode.Tool.ApplyPatch

/-!
# Tool — what the hunks of a patch do to the files

`ApplyPatchTool::execute` carries the hunks out one after the other and reports on each.

* `effects_iff`: no hunk touches a file it does not name, a hunk that is reported with a cross
  touches none, and each of the others has its effect, if and only if no file that an update is
  applied to is moved onto itself: such a file is written, and then removed.
* `moved_onto_itself`: a patch that loses a file so.
-/

namespace Jcode.Tool
open Rust

/-! ### Carrying out a patch -/

/-- What `ctx.resolve_path` reads. -/
structure ToolContext where
  workingDir : Option String := none

/-- `PathBuf::join`, for a relative path. -/
def joinPath (base path : String) : String :=
  if base = "" || base.toList.getLast? = some '/' then base ++ path else base ++ "/" ++ path

/-- `ToolContext::resolve_path`. -/
def ToolContext.resolvePath (ctx : ToolContext) (path : String) : String :=
  if startsWith path "/" then path
  else match ctx.workingDir with
    | some base => joinPath base path
    | none => path

inductive ChangeTag where
  | delete | insert | equal
  deriving DecidableEq, Repr

/-- The texts of the files. -/
abbrev Files (κ : Type*) := κ → Option String

/-- The tool's context, the file that each path is of, and the comparison of two texts. -/
structure Env (κ : Type*) where
  ctx : ToolContext
  fileAt : String → κ
  changes : String → String → List (ChangeTag × String)

/-- The lines of `generate_diff_summary`. -/
def diffSummaryFrom (lineCount oldLine newLine : ℕ) : List (ChangeTag × String) → String
  | [] => ""
  | (tag, value) :: rest =>
      if 30 ≤ lineCount then "... (diff truncated)\n"
      else
        let content := trimEndMatches value '\n'
        let blank := (trim content).isEmpty
        match tag with
        | .delete =>
            if blank then diffSummaryFrom lineCount (oldLine + 1) newLine rest
            else toString oldLine ++ "- " ++ content ++ "\n" ++
              diffSummaryFrom (lineCount + 1) (oldLine + 1) newLine rest
        | .insert =>
            if blank then diffSummaryFrom lineCount oldLine (newLine + 1) rest
            else toString newLine ++ "+ " ++ content ++ "\n" ++
              diffSummaryFrom (lineCount + 1) oldLine (newLine + 1) rest
        | .equal => diffSummaryFrom lineCount (oldLine + 1) (newLine + 1) rest

section
variable {κ : Type*} [DecidableEq κ] (env : Env κ)

/-- `generate_diff_summary`. -/
def Env.generateDiffSummary (old new : String) : String :=
  trimEnd (diffSummaryFrom 0 1 1 (env.changes old new))

/-- The file that a path in the patch names. -/
def Env.named (path : String) : κ := env.fileAt (env.ctx.resolvePath path)

/-- The loop's state: the files, the results of the hunks so far, and the paths they touched. -/
structure LoopState (κ : Type*) where
  files : Files κ
  results : List String := []
  touchedPaths : List String := []

/-- What a hunk that was carried out reports. -/
def report (result diff : String) : String :=
  if diff.isEmpty then "✓ " ++ result else "✓ " ++ result ++ "\n" ++ diff

/-- One round of the loop; `none` is a panic. -/
def Env.performHunk (s : LoopState κ) : PatchHunk → Option (LoopState κ)
  | .addFile path contents =>
      let diff := env.generateDiffSummary "" contents
      some {
        files := Function.update s.files (env.named path) (some contents)
        results := s.results ++ [report (path ++ ": created") diff]
        touchedPaths := s.touchedPaths ++ [path] }
  | .deleteFile path =>
      match s.files (env.named path) with
      | some oldContents =>
          let diff := env.generateDiffSummary oldContents ""
          some {
            files := Function.update s.files (env.named path) none
            results := s.results ++ [report (path ++ ": deleted") diff]
            touchedPaths := s.touchedPaths ++ [path] }
      | none => some { s with results := s.results ++ ["✗ " ++ (path ++ ": failed to delete")] }
  | .updateFile path moveTo chunks =>
      let resolved := env.ctx.resolvePath path
      (applyUpdateChunks (s.files (env.fileAt resolved)) resolved chunks).map fun
        | .ok (oldContents, newContents) =>
            let diff := env.generateDiffSummary oldContents newContents
            let modified := path ++ ": modified (" ++ toString chunks.length ++ " hunks)"
            match moveTo with
            | some dest =>
                let written :=
                  Function.update s.files (env.named dest) (some newContents)
                { files := Function.update written (env.fileAt resolved) none
                  results := s.results ++ [report (modified ++ ", moved to " ++ dest) diff]
                  touchedPaths := s.touchedPaths ++ [path, dest] }
            | none =>
                { files := Function.update s.files (env.fileAt resolved) (some newContents)
                  results := s.results ++ [report modified diff]
                  touchedPaths := s.touchedPaths ++ [path] }
        | .error e => { s with results := s.results ++ ["✗ " ++ (path ++ ": " ++ e)] }

/-- The loop over the hunks. -/
def Env.performHunks (s : LoopState κ) (hunks : List PatchHunk) : Option (LoopState κ) :=
  hunks.foldlM env.performHunk s

structure ToolOutput where
  output : String
  title : Option String := none
  deriving DecidableEq, Repr

def LoopState.toolOutput (s : LoopState κ) : ToolOutput :=
  if s.results.isEmpty then { output := "No changes applied" }
  else
    { output := join "\n" s.results
      title := match s.touchedPaths with
        | [path] => some path
        | _ => some (toString s.touchedPaths.length ++ " files") }

/-- `ApplyPatchTool::execute`: the files after it, and the output or the error. -/
def Env.execute (files : Files κ) (patchText : String) :
    Option (Files κ × Except String ToolOutput) :=
  match parseApplyPatch patchText with
  | .error e => some (files, .error e)
  | .ok hunks => (env.performHunks { files } hunks).map fun s => (s.files, .ok s.toolOutput)

/-! ### The effect of a hunk -/

def PatchHunk.paths : PatchHunk → List String
  | .addFile path _ => [path]
  | .deleteFile path => [path]
  | .updateFile path moveTo _ => path :: moveTo.toList

/-- The files that a hunk names. -/
def Env.names (hunk : PatchHunk) : List κ := hunk.paths.map env.named

/-- What the chunks make of the file. -/
def Env.updated (files : Files κ) (path : String) (chunks : List UpdateFileChunk) :
    Option (Except String (String × String)) :=
  applyUpdateChunks (files (env.named path)) (env.ctx.resolvePath path) chunks

/-- **What a hunk should do**: it changes no file that it does not name, and none if it is reported
with a cross; a file that it adds has its contents; a file that it deletes is gone; and if an update
is not reported with a cross, the new contents are at their destination, and only there. -/
def Env.HasEffect (s s' : LoopState κ) (hunk : PatchHunk) : Prop :=
  ∃ result, s'.results = s.results ++ [result] ∧
    (∀ k ∉ env.names hunk, s'.files k = s.files k) ∧
    (startsWith result "✗" → s'.files = s.files) ∧
    match hunk with
    | .addFile path contents => s'.files (env.named path) = some contents
    | .deleteFile path => s'.files (env.named path) = none
    | .updateFile path moveTo chunks => ¬ startsWith result "✗" →
        ∃ oldContents newContents,
          env.updated s.files path chunks = some (.ok (oldContents, newContents)) ∧
          s'.files (env.named (moveTo.getD path)) = some newContents ∧
          (env.named (moveTo.getD path) ≠ env.named path → s'.files (env.named path) = none)

/-- An update is applied to a file that is moved onto itself. -/
def Env.MovesOntoItself (files : Files κ) : PatchHunk → Prop
  | .updateFile path (some dest) chunks => env.named dest = env.named path ∧
      ∃ contents, env.updated files path chunks = some (.ok contents)
  | _ => False

theorem startsWith_report (result diff : String) : startsWith (report result diff) "✗" = false := by
  rw [report]
  split
  all_goals
    simp only [startsWith, String.toList_append]
    rfl

theorem startsWith_cross (result : String) : startsWith ("✗ " ++ result) "✗" = true := by
  simp only [startsWith, String.toList_append]
  rfl

variable {env} {s s' : LoopState κ} {hunk : PatchHunk}

theorem performHunk_isSome (env : Env κ) (s : LoopState κ) (hunk : PatchHunk) :
    ∃ s', env.performHunk s hunk = some s' := by
  cases hunk with
  | addFile path contents => exact ⟨_, rfl⟩
  | deleteFile path =>
      rw [Env.performHunk]
      split
      all_goals exact ⟨_, rfl⟩
  | updateFile path moveTo chunks =>
      rw [← Option.isSome_iff_exists, Env.performHunk, Option.isSome_map]
      exact applyUpdateChunks_isSome _ _ _

/-- Every hunk is reported, and changes no file that it does not name. -/
theorem performHunk_report (h : env.performHunk s hunk = some s') :
    ∃ result, s'.results = s.results ++ [result] ∧
      (∀ k ∉ env.names hunk, s'.files k = s.files k) ∧
      (startsWith result "✗" → s'.files = s.files) := by
  cases hunk with
  | addFile path contents =>
      rw [← Option.some.inj h]
      refine ⟨_, rfl, fun k hk => Function.update_of_ne ?_ _ _, fun hcross => ?_⟩
      · exact fun he => hk (List.mem_singleton.mpr he)
      · exact absurd hcross (by simp [startsWith_report])
  | deleteFile path =>
      rw [Env.performHunk] at h
      split at h
      · rw [← Option.some.inj h]
        refine ⟨_, rfl, fun k hk => Function.update_of_ne ?_ _ _, fun hcross => ?_⟩
        · exact fun he => hk (List.mem_singleton.mpr he)
        · exact absurd hcross (by simp [startsWith_report])
      · rw [← Option.some.inj h]
        exact ⟨_, rfl, fun _ _ => rfl, fun _ => rfl⟩
  | updateFile path moveTo chunks =>
      obtain ⟨outcome, -, rfl⟩ := Option.map_eq_some_iff.mp h
      have hpath : env.named path ∈ env.names (.updateFile path moveTo chunks) :=
        List.mem_map_of_mem List.mem_cons_self
      match outcome, moveTo with
      | .error e, _ => exact ⟨_, rfl, fun _ _ => rfl, fun _ => rfl⟩
      | .ok (oldContents, newContents), none =>
          refine ⟨_, rfl, fun k hk => Function.update_of_ne ?_ _ _, fun hcross => ?_⟩
          · exact fun he => hk (he ▸ hpath)
          · exact absurd hcross (by simp [startsWith_report])
      | .ok (oldContents, newContents), some dest =>
          have hdest : env.named dest ∈ env.names (.updateFile path (some dest) chunks) :=
            List.mem_map_of_mem (List.mem_cons_of_mem _ List.mem_cons_self)
          refine ⟨_, rfl, fun k hk => ?_, fun hcross => ?_⟩
          · have hkpath : k ≠ env.named path := fun he => hk (he ▸ hpath)
            have hkdest : k ≠ env.named dest := fun he => hk (he ▸ hdest)
            exact (Function.update_of_ne hkpath _ _).trans (Function.update_of_ne hkdest _ _)
          · exact absurd hcross (by simp [startsWith_report])

/-- **One hunk** has its effect unless it moves the file it is applied to onto itself. -/
theorem hasEffect_iff (h : env.performHunk s hunk = some s') :
    env.HasEffect s s' hunk ↔ ¬ env.MovesOntoItself s.files hunk := by
  obtain ⟨result, hresult, hframe, hcross⟩ := performHunk_report h
  cases hunk with
  | addFile path contents =>
      refine iff_of_true ⟨result, hresult, hframe, hcross, ?_⟩ id
      rw [← Option.some.inj h]
      exact Function.update_self _ _ _
  | deleteFile path =>
      refine iff_of_true ⟨result, hresult, hframe, hcross, ?_⟩ id
      rw [Env.performHunk] at h
      split at h
      · rw [← Option.some.inj h]
        exact Function.update_self _ _ _
      · next hnone =>
          rw [← Option.some.inj h]
          exact hnone
  | updateFile path moveTo chunks =>
      obtain ⟨outcome, houtcome, rfl⟩ := Option.map_eq_some_iff.mp h
      have hupdated : env.updated s.files path chunks = some outcome := houtcome
      match outcome, moveTo with
      | .error e, moveTo =>
          obtain rfl := List.singleton_inj.mp (List.append_cancel_left hresult)
          refine iff_of_true ⟨_, hresult, hframe, hcross, fun hno => ?_⟩ fun hmoves => ?_
          · exact absurd (startsWith_cross _) hno
          · cases moveTo with
            | none => exact hmoves
            | some dest =>
                obtain ⟨-, contents, hok⟩ := hmoves
                cases hupdated.symm.trans hok
      | .ok (oldContents, newContents), none =>
          refine iff_of_true ⟨_, hresult, hframe, hcross, fun _ => ?_⟩ id
          exact ⟨oldContents, newContents, hupdated, Function.update_self _ _ _,
            fun hne => absurd rfl hne⟩
      | .ok (oldContents, newContents), some dest =>
          constructor
          · rintro ⟨result', hresult', -, -, heffect⟩ ⟨hsame, -⟩
            obtain rfl := List.singleton_inj.mp (List.append_cancel_left hresult')
            obtain ⟨old, new, -, hnew, -⟩ := heffect (by simp [startsWith_report])
            rw [Option.getD_some, hsame] at hnew
            cases (Function.update_self _ _ _).symm.trans hnew
          · intro hmoves
            have hne : env.named dest ≠ env.named path :=
              fun hsame => hmoves ⟨hsame, _, hupdated⟩
            refine ⟨_, hresult, hframe, hcross, fun _ => ?_⟩
            exact ⟨oldContents, newContents, hupdated,
              (Function.update_of_ne hne _ _).trans (Function.update_self _ _ _),
              fun _ => Function.update_self _ _ _⟩

/-! ### The run -/

theorem performHunks_append (env : Env κ) (s : LoopState κ) (before after : List PatchHunk) :
    env.performHunks s (before ++ after) =
      (env.performHunks s before).bind fun s' => env.performHunks s' after :=
  List.foldlM_append

theorem performHunks_cons (env : Env κ) (s : LoopState κ) (hunk : PatchHunk)
    (hunks : List PatchHunk) : env.performHunks s (hunk :: hunks) =
      (env.performHunk s hunk).bind fun s' => env.performHunks s' hunks :=
  List.foldlM_cons

/-- The loop reports on every hunk, and changes no file that none of them names. -/
theorem performHunks_report (env : Env κ) (s : LoopState κ) (hunks : List PatchHunk) :
    ∃ s', env.performHunks s hunks = some s' ∧
      s'.results.length = s.results.length + hunks.length ∧
      ∀ k, (∀ hunk ∈ hunks, k ∉ env.names hunk) → s'.files k = s.files k := by
  induction hunks generalizing s with
  | nil => exact ⟨s, rfl, rfl, fun _ _ => rfl⟩
  | cons hunk hunks ih =>
      obtain ⟨s₁, h₁⟩ := performHunk_isSome env s hunk
      obtain ⟨result, hresult, hframe₁, -⟩ := performHunk_report h₁
      obtain ⟨s', h', hlength, hframe⟩ := ih s₁
      refine ⟨s', by rw [performHunks_cons, h₁]; exact h', ?_, fun k hk => ?_⟩
      · rw [hlength, hresult, List.length_append, List.length_singleton, List.length_cons]
        omega
      · obtain ⟨hkhunk, hkhunks⟩ := List.forall_mem_cons.mp hk
        exact (hframe k hkhunks).trans (hframe₁ k hkhunk)

/-- **The effects of a patch**: the loop ends, no file changes that no hunk names, and every hunk
has its effect if and only if no update is applied to a file that is moved onto itself. -/
theorem effects_iff (env : Env κ) (files : Files κ) (hunks : List PatchHunk) :
    ∃ s, env.performHunks { files } hunks = some s ∧
      s.results.length = hunks.length ∧
      (∀ k, (∀ hunk ∈ hunks, k ∉ env.names hunk) → s.files k = files k) ∧
      ((∀ before hunk after t t', hunks = before ++ hunk :: after →
          env.performHunks { files } before = some t → env.performHunk t hunk = some t' →
            env.HasEffect t t' hunk) ↔
        ∀ before hunk after t, hunks = before ++ hunk :: after →
          env.performHunks { files } before = some t → ¬ env.MovesOntoItself t.files hunk) := by
  obtain ⟨s, hs, hlength, hframe⟩ := performHunks_report env { files } hunks
  refine ⟨s, hs, by simpa using hlength, hframe, fun h before hunk after t he ht => ?_,
    fun h before hunk after t t' he ht ht' => ?_⟩
  · obtain ⟨t', ht'⟩ := performHunk_isSome env t hunk
    exact (hasEffect_iff ht').mp (h before hunk after t t' he ht ht')
  · exact (hasEffect_iff ht').mpr (h before hunk after t he ht)

end

/-! ### A file that is lost -/

/-- No working directory, a file system without links, and texts of one line each. -/
def plainEnv : Env String := ⟨{}, id, fun old new => [(.delete, old), (.insert, new)]⟩

def ontoItself : String :=
  "*** Begin Patch\n*** Update File: a.txt\n*** Move to: a.txt\n@@\n-one\n+two\n*** End Patch"

/-- **A file that an update moves onto itself is lost**, and the update is reported as done. -/
theorem moved_onto_itself :
    parseApplyPatch ontoItself =
        .ok [.updateFile "a.txt" (some "a.txt") [⟨none, ["one"], ["two"], false⟩]] ∧
      applyUpdateChunks (some "one\n") "a.txt" [⟨none, ["one"], ["two"], false⟩] =
        some (.ok ("one\n", "two\n")) ∧
      (plainEnv.execute (fun _ => some "one\n") ontoItself).map
          (fun done => (done.1 "a.txt", done.2.toOption)) =
        some (none, some ⟨"✓ a.txt: modified (1 hunks), moved to a.txt\n1- one\n1+ two",
          some "2 files"⟩) := by
  decide +kernel

end Jcode.Tool
