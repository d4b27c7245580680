import Stowage.Proofs.Launch.Recording

/-!
# Feeding a runtime

A runtime is fed three times with the entries of a container: with the compiled modules,
with the code bundles and with the scripts.  `Feed` says in what the three differ, and
`Fed` says, entry by entry, which calls such a pass makes and where it ends.

The three passes of the program are of this form (`runModulesAmong_records`,
`addBundlesAmong_records`, `runScriptsAmong_records`).  Of every pass it follows that the
entries come in stored order and none is left out before the end (`Fed.labels_prefix`),
and that the pass succeeds if and only if it got to the last entry and no call failed that
may not fail (`Fed.ok_iff`).
-/

namespace Stowage

open Result Effect

variable {τ : Type}

/-! ## Feeds -/

/-- What distinguishes a pass over the entries of a container. -/
structure Feed where
  /-- The entries that the runtime is fed with. -/
  picks : Record → Bool
  /-- The data of an entry is read before the call. -/
  reads : Bool
  /-- How the runtime is told which entry it is. -/
  label : Archive → Record → String
  /-- The call for an entry. -/
  call : String → Bytes → Except RuntimeError Unit → LaunchCall
  /-- A call that fails is passed over. -/
  tolerates : Bool
  /-- The label and the answer of a call of this pass. -/
  answered? : LaunchCall → Option (String × Except RuntimeError Unit)
  answered?_call : ∀ label bytes answer, answered? (call label bytes answer) = some (label, answer)

namespace Feed

/-- Compiled modules are read and run; one that fails is passed over. -/
def modules : Feed where
  picks r := r.kind.isBootstrap
  reads := true
  label _ r := r.name
  call name code answer := .runModule name code answer
  tolerates := true
  answered? | .runModule name _ answer => some (name, answer) | _ => none
  answered?_call _ _ _ := rfl

/-- Code bundles are found by the runtime itself. -/
def bundles : Feed where
  picks r := r.kind = .codeBundle
  reads := false
  label a r := a.bundleLocation r.offset
  call location _ answer := .addCodeBundle location answer
  tolerates := false
  answered? | .addCodeBundle location answer => some (location, answer) | _ => none
  answered?_call _ _ _ := rfl

/-- Scripts are read and run up to the first that fails. -/
def scripts : Feed where
  picks r := r.kind = .script
  reads := true
  label _ r := r.name
  call name source answer := .runScript name source answer
  tolerates := false
  answered? | .runScript name _ answer => some (name, answer) | _ => none
  answered?_call _ _ _ := rfl

/-- The three passes, in their order. -/
def all : List Feed := [modules, bundles, scripts]

/-- What is read of an entry before the call. -/
def data [Zlib.Inflater] (f : Feed) (a : Archive) (r : Record) :
    FileSystem.Call RuntimeError Bytes :=
  if f.reads then (a.payload r).withError .archive else pure []

/-- Reading the data of an entry fails because of the container. -/
theorem error_of_data [Zlib.Inflater] {f : Feed} {a : Archive} {r : Record} {fs fs' : FileSystem}
    {e : RuntimeError} (h : (f.data a r).apply fs = (.error e, fs')) :
    ∃ fault, e = .archive fault := by
  rw [data] at h
  split at h
  · rw [FileSystem.Call.apply_withError] at h
    obtain ⟨fault, -, rfl⟩ := mapError_eq_error.mp (Prod.mk.inj h).1
    exact ⟨fault, rfl⟩
  · cases h

/-- The labels of the entries that a pass is about, in stored order. -/
def labels (f : Feed) (a : Archive) (entries : List (Except Malformation Record)) : List String :=
  entries.filterMap fun
    | .ok r => if f.picks r then some (f.label a r) else none
    | .error _ => none

/-- The calls of a pass among some steps: their labels and answers. -/
def answers (f : Feed) (steps : List (LaunchStep τ)) :
    List (String × Except RuntimeError Unit) :=
  steps.filterMap (f.answered? ·.call)

/-- The labels with which a pass has called the runtime. -/
def called (f : Feed) (steps : List (LaunchStep τ)) : List String := (f.answers steps).map (·.1)

@[simp] theorem labels_nil (f : Feed) (a : Archive) : f.labels a [] = [] := rfl

@[simp] theorem labels_picked {f : Feed} {r : Record} (hpick : f.picks r = true) (a : Archive)
    (rest : List (Except Malformation Record)) :
    f.labels a (.ok r :: rest) = f.label a r :: f.labels a rest := by
  simp [labels, hpick]

@[simp] theorem labels_other {f : Feed} {r : Record} (hpick : f.picks r = false) (a : Archive)
    (rest : List (Except Malformation Record)) :
    f.labels a (.ok r :: rest) = f.labels a rest := by
  simp [labels, hpick]

@[simp] theorem answers_nil (f : Feed) : f.answers ([] : List (LaunchStep τ)) = [] := rfl

@[simp] theorem answers_append (f : Feed) (steps more : List (LaunchStep τ)) :
    f.answers (steps ++ more) = f.answers steps ++ f.answers more :=
  List.filterMap_append

@[simp] theorem answers_call (f : Feed) (label : String) (bytes : Bytes)
    (answer : Except RuntimeError Unit) (before after : World τ) (steps : List (LaunchStep τ)) :
    f.answers (⟨f.call label bytes answer, before, after⟩ :: steps) =
      (label, answer) :: f.answers steps := by
  rw [answers, List.filterMap_cons, f.answered?_call]
  rfl

end Feed

variable [Zlib.Inflater]

/-- **The course of a pass** over some entries: the calls that are made one after the
other, how the pass ends, and the world that it leaves. -/
inductive Fed (a : Archive) (f : Feed) : World τ → List (Except Malformation Record) →
    List (LaunchStep τ) → Except RuntimeError Unit → World τ → Prop
  /-- All entries have been seen. -/
  | done (w : World τ) : Fed a f w [] [] (.ok ()) w
  /-- The table cannot be read on. -/
  | malformed (w : World τ) (m : Malformation) (rest : List (Except Malformation Record)) :
    Fed a f w (.error m :: rest) [] (.error (.archive (.plain (.malformed m)))) w
  /-- The entry is of another kind. -/
  | other {w w' : World τ} {r : Record} {rest : List (Except Malformation Record)}
    {steps : List (LaunchStep τ)} {result : Except RuntimeError Unit} (hpick : f.picks r = false)
    (hrest : Fed a f w rest steps result w') : Fed a f w (.ok r :: rest) steps result w'
  /-- The data of the entry cannot be read. -/
  | unread {w : World τ} {r : Record} {e : RuntimeError} {files : FileSystem}
    (rest : List (Except Malformation Record)) (hpick : f.picks r = true)
    (hread : (f.data a r).apply w.files = (.error e, files)) :
    Fed a f w (.ok r :: rest) [] (.error e) { w with files }
  /-- The call fails, and may not. -/
  | refused {w after : World τ} {r : Record} {bytes : Bytes} {e : RuntimeError}
    {files : FileSystem} (rest : List (Except Malformation Record)) (hpick : f.picks r = true)
    (hread : (f.data a r).apply w.files = (.ok bytes, files)) (htolerates : f.tolerates = false) :
    Fed a f w (.ok r :: rest)
      [⟨f.call (f.label a r) bytes (.error e), { w with files }, after⟩] (.error e) after
  /-- The call succeeds, or its failure is passed over. -/
  | fed {w after w' : World τ} {r : Record} {rest : List (Except Malformation Record)}
    {bytes : Bytes} {files : FileSystem} {answer result : Except RuntimeError Unit}
    {steps : List (LaunchStep τ)} (hpick : f.picks r = true)
    (hread : (f.data a r).apply w.files = (.ok bytes, files))
    (hanswer : f.tolerates = true ∨ answer = .ok ())
    (hrest : Fed a f after rest steps result w') :
    Fed a f w (.ok r :: rest)
      (⟨f.call (f.label a r) bytes answer, { w with files }, after⟩ :: steps) result w'

namespace Fed

variable {a : Archive} {f : Feed} {w w' : World τ} {entries : List (Except Malformation Record)}
  {steps : List (LaunchStep τ)} {result : Except RuntimeError Unit} {e : RuntimeError}

/-- **Entries are taken in stored order**, and none is left out up to the end of the
pass. -/
theorem labels_prefix (h : Fed a f w entries steps result w') :
    f.called steps <+: f.labels a entries := by
  induction h with
  | done | malformed | unread => exact List.nil_prefix
  | other hpick _ ih => rwa [Feed.labels_other hpick]
  | refused rest hpick =>
    rw [Feed.labels_picked hpick]
    simp [Feed.called]
  | fed hpick _ _ _ ih =>
    rw [Feed.labels_picked hpick]
    simpa [Feed.called] using ih

/-- **A pass succeeds** if and only if it has been through all entries, and every call that
may not fail has succeeded. -/
theorem ok_iff (h : Fed a f w entries steps result w') :
    result = .ok () ↔ (∀ e ∈ entries, ∃ r, e = .ok r) ∧ f.called steps = f.labels a entries ∧
      (f.tolerates = true ∨ ∀ c ∈ f.answers steps, c.2 = .ok ()) := by
  induction h with
  | done w => simp [Feed.called]
  | malformed => simp
  | other hpick _ ih =>
    rw [ih, Feed.labels_other hpick]
    simp
  | unread rest hpick =>
    rw [Feed.labels_picked hpick]
    simp [Feed.called]
  | refused rest hpick _ htolerates => simp [htolerates]
  | fed hpick _ hanswer _ ih =>
    rw [ih, Feed.labels_picked hpick]
    rcases hanswer with htolerates | rfl
    · simp [Feed.called, htolerates]
    · simp [Feed.called]

/-- A pass that stops, and not because of the container, stops at its last call. -/
theorem getLast?_answers (h : Fed a f w entries steps (.error e) w')
    (hother : ∀ fault, e ≠ .archive fault) :
    ∃ label, (f.answers steps).getLast? = some (label, .error e) := by
  generalize hr : (Except.error e : Except RuntimeError Unit) = result at h
  induction h with
  | done => cases hr
  | malformed =>
    cases hr
    exact absurd rfl (hother _)
  | other _ _ ih => exact ih hr
  | unread rest _ hread =>
    cases hr
    obtain ⟨fault, hfault⟩ := Feed.error_of_data hread
    exact absurd hfault (hother fault)
  | refused =>
    cases hr
    exact ⟨_, by rw [Feed.answers_call]; rfl⟩
  | fed _ _ _ _ ih =>
    obtain ⟨label, hlast⟩ := ih hr
    exact ⟨label, by rw [Feed.answers_call, List.getLast?_cons, hlast]; rfl⟩

/-- A failure that may not be passed over decides how the pass ends. -/
theorem eq_error_of_mem (h : Fed a f w entries steps result w') (htolerates : f.tolerates = false)
    {label : String} (hmem : (label, .error e) ∈ f.answers steps) : result = .error e := by
  induction h with
  | done | malformed | unread => simp at hmem
  | other _ _ ih => exact ih hmem
  | refused =>
    obtain ⟨-, rfl⟩ : label = _ ∧ e = _ := by simpa using hmem
    rfl
  | fed _ _ hanswer _ ih =>
    obtain rfl := hanswer.resolve_left (by simp [htolerates])
    exact ih (by simpa using hmem)

/-- What holds of all calls of its kind holds of all steps of a pass. -/
theorem forall_call (h : Fed a f w entries steps result w') {P : LaunchCall → Prop}
    (hcalls : ∀ label bytes answer, P (f.call label bytes answer)) :
    ∀ step ∈ steps, P step.call := by
  induction h with
  | done | malformed | unread => simp
  | other _ _ ih => exact ih
  | refused => simpa using hcalls _ _ _
  | fed _ _ _ _ ih =>
    intro step hstep
    rcases List.mem_cons.mp hstep with rfl | hstep
    · exact hcalls _ _ _
    · exact ih step hstep

end Fed

/-! ## The passes of the program -/

namespace Archive

variable {w : World τ} {r : Record} {α : Type}

/-- What is read of an entry is what the program reads. -/
theorem records_runtimePayload {f : Feed} (hreads : f.reads = true) (a : Archive) (r : Record)
    (w : World τ) :
    Records (a.runtimePayload r : Effect (Recorded τ) RuntimeError Bytes) (a.runtimePayload r) w
      fun result steps w' => steps = [] ∧
        ∃ files, (f.data a r).apply w.files = (result, files) ∧ w' = { w with files } := by
  refine records_onFiles ⟨rfl, _, ?_, rfl⟩
  rw [Feed.data, if_pos hreads]
  rfl

/-- **Running the modules** is a pass of its kind. -/
theorem runModulesAmong_records (a : Archive) (runtime : HostedRuntime τ) (report : ModuleReport)
    (entries : List (Except Malformation Record)) (w : World τ) :
    Records (a.runModulesAmong runtime.recorded report entries)
      (a.runModulesAmong runtime report entries) w
      fun result steps w' => Fed a .modules w entries steps (result.map fun _ => ()) w' := by
  induction entries generalizing report w with
  | nil => exact records_pure (.done w)
  | cons e rest ih =>
    cases e with
    | error m => exact records_throw (.malformed w m rest)
    | ok r =>
      rw [runModulesAmong, runModulesAmong]
      by_cases hkind : r.kind.isBootstrap = true
      · simp only [hkind, Bool.not_true, Bool.false_eq_true, if_false]
        refine (a.records_runtimePayload (f := .modules) rfl r w).bind ?_ ?_
        · rintro code _ _ ⟨rfl, files, hread, rfl⟩
          refine (records_recorded (.runModule r.name code) _ _).outcome.bind ?_ ?_
          · rintro answer _ w₁ ⟨_, ⟨⟩, rfl, -⟩
            -- a module that fails is passed over like one that does not
            cases answer with
            | ok _ => exact (ih _ w₁).mono fun _ _ _ h => .fed hkind hread (.inl rfl) h
            | error _ => exact (ih _ w₁).mono fun _ _ _ h => .fed hkind hread (.inl rfl) h
          · rintro e _ _ ⟨_, ⟨⟩, -⟩
        · rintro e _ _ ⟨rfl, files, hread, rfl⟩
          exact .unread rest hkind hread
      · rw [Bool.not_eq_true] at hkind
        simp only [hkind, Bool.not_false, if_true]
        exact (ih report w).mono fun _ _ _ h => .other hkind h

/-- **Adding the bundles** is a pass of its kind. -/
theorem addBundlesAmong_records (a : Archive) (runtime : HostedRuntime τ) (count : Nat)
    (entries : List (Except Malformation Record)) (w : World τ) :
    Records (a.addBundlesAmong runtime.recorded count entries)
      (a.addBundlesAmong runtime count entries) w
      fun result steps w' => Fed a .bundles w entries steps (result.map fun _ => ()) w' := by
  induction entries generalizing count w with
  | nil => exact records_pure (.done w)
  | cons e rest ih =>
    cases e with
    | error m => exact records_throw (.malformed w m rest)
    | ok r =>
      rw [addBundlesAmong, addBundlesAmong]
      by_cases hkind : r.kind = .codeBundle
      · have hpick : Feed.bundles.picks r = true := decide_eq_true hkind
        rw [if_neg (not_not_intro hkind), if_neg (not_not_intro hkind)]
        refine (records_recorded (.addCodeBundle (a.bundleLocation r.offset)) _ w).bind ?_ ?_
        · rintro _ _ w₁ ⟨rfl, -⟩
          exact (ih _ w₁).mono fun _ _ _ h => .fed hpick rfl (.inr rfl) h
        · rintro e _ w₁ ⟨rfl, -⟩
          exact .refused rest hpick rfl rfl
      · rw [if_pos hkind, if_pos hkind]
        exact (ih count w).mono fun _ _ _ h => .other (decide_eq_false hkind) h

/-- **Running the scripts** is a pass of its kind. -/
theorem runScriptsAmong_records (a : Archive) (runtime : HostedRuntime τ) (count : Nat)
    (entries : List (Except Malformation Record)) (w : World τ) :
    Records (a.runScriptsAmong runtime.recorded count entries)
      (a.runScriptsAmong runtime count entries) w
      fun result steps w' => Fed a .scripts w entries steps (result.map fun _ => ()) w' := by
  induction entries generalizing count w with
  | nil => exact records_pure (.done w)
  | cons e rest ih =>
    cases e with
    | error m => exact records_throw (.malformed w m rest)
    | ok r =>
      rw [runScriptsAmong, runScriptsAmong]
      by_cases hkind : r.kind = .script
      · have hpick : Feed.scripts.picks r = true := decide_eq_true hkind
        rw [if_neg (not_not_intro hkind), if_neg (not_not_intro hkind)]
        refine (a.records_runtimePayload (f := .scripts) rfl r w).bind ?_ ?_
        · rintro source _ _ ⟨rfl, files, hread, rfl⟩
          refine (records_recorded (.runScript r.name source) _ _).bind ?_ ?_
          · rintro _ _ w₁ ⟨rfl, -⟩
            exact (ih _ w₁).mono fun _ _ _ h => .fed hpick hread (.inr rfl) h
          · rintro e _ w₁ ⟨rfl, -⟩
            exact .refused rest hpick hread rfl
        · rintro e _ _ ⟨rfl, files, hread, rfl⟩
          exact .unread rest hpick hread
      · rw [if_pos hkind, if_pos hkind]
        exact (ih count w).mono fun _ _ _ h => .other (decide_eq_false hkind) h

end Archive
end Stowage
