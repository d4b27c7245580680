import Mathlib.Data.List.Chain
import Stowage.Proofs.Launch.Extraction
import Stowage.Proofs.Launch.LifeCycle
import Stowage.Proofs.Launch.Processes

/-!
# Chains of launchers

A launcher that hands over starts the same program again, and that must come to an end.
Two marks in the environment see to it.  A process that is told of an extraction directory
neither extracts nor replaces itself, and one that is told that it has replaced itself does
not do so again.

`chain_ends` says what this comes to, for any environment at the start: no chain of
launchers is longer than two, the second one does not hand over, and the whole chain
extracts at most once and starts at most one runtime.
-/

namespace Stowage

open Result

variable {τ : Type}

/-- The calls that start a runtime. -/
def LaunchCall.isStart : LaunchCall → Bool
  | .start .. => true
  | _ => false

theorem LaunchCall.not_isStart {c : LaunchCall} (h : c.isRuntime = false) :
    c.isStart = false := by
  cases c <;> first | rfl | cases h

/-- A runtime is not started while it is fed. -/
theorem LaunchCall.not_isStart_of_isFeeding {c : LaunchCall} (h : c.isFeeding = true) :
    c.isStart = false := by
  cases c <;> simp_all [isFeeding, isStart]

namespace Launch

variable {env : Surroundings τ} {setup : LaunchSetup} {a : Archive} {s s' : LaunchState}
  {w w' : World τ} {r : Except LaunchError LaunchOutcome} {steps : List (LaunchStep τ)}
  {step : LaunchStep τ}

/-! ## When a launch hands over -/

/-- In a step, a launch lets a copy of the program run from the directory that it has just
made and filled, and the launch ends as the copy does. -/
structure Respawns [Zlib.Inflater] (env : Surroundings τ) (setup : LaunchSetup) (a : Archive)
    (s : LaunchState) (w : World τ) (dir : Path) (r : Except LaunchError LaunchOutcome)
    (s' : LaunchState) (w' : World τ) (step : LaunchStep τ) : Prop where
  filled : ∃ heard w₁ changed, Extracted env setup a s w (.ok dir)
      { s with session := s.session.adopt dir } heard w₁ ∧
    (env.exposeHome dir).apply w₁ = (.ok changed, step.before)
  state : s' = { s with session := { s.session.adopt dir with home := dir } }
  answered : ∃ answer,
    step.call = .respawn s'.session (.forChild dir) s.options.launcher.ignoreSignals answer ∧
    (env.respawn s'.session (.forChild dir) s.options.launcher.ignoreSignals).apply step.before =
      (answer, w') ∧ r = answer.map .ofChild

/-- A launch hands over in its last step, if it does, and it does so for one of two
reasons. -/
structure HandsOver [Zlib.Inflater] (env : Surroundings τ) (setup : LaunchSetup) (a : Archive)
    (s : LaunchState) (w : World τ) (r : Except LaunchError LaunchOutcome) (s' : LaunchState)
    (steps : List (LaunchStep τ)) (w' : World τ) (step : LaunchStep τ) : Prop where
  first : setup.handshake.extractDir = none
  last : ∃ before, steps = before ++ [step] ∧ ∀ other ∈ before, other.call.isHandover = false
  reason : (a.needsExtraction = true ∧ ∃ dir, Respawns env setup a s w dir r s' w' step) ∨
    (a.needsExtraction = false ∧ setup.handshake.restarted = false ∧
      (∃ session answer, step.call = .restart session answer) ∧
      ∃ home, (env.exposeHome home).apply w = (.ok true, step.before))

theorem Opening.stays {result : Except LaunchError Archive}
    (h : Opening env s w result s' steps w') : ∀ step ∈ steps, step.call.isHandover = false := by
  obtain ⟨-, step, answer, rfl, hcall⟩ := h.step
  simp [hcall, LaunchCall.isHandover]

theorem Heard.stays (h : Heard steps) : ∀ step ∈ steps, step.call.isHandover = false := by
  intro step hstep
  obtain ⟨name, hcall⟩ := h step hstep
  rw [hcall]
  rfl

section

variable [Zlib.Inflater]

/-- In place, a launch hands over by replacing itself. -/
theorem InPlace.handsOver (h : InPlace env setup a s w r s' steps w') (hstep : step ∈ steps)
    (hcall : step.call.isHandover = true) :
    s.session.isChild = false ∧ setup.handshake.restarted = false ∧
      (∃ session answer, step.call = .restart session answer) ∧
      (env.exposeHome s.session.home).apply w = (.ok true, step.before) ∧
      ∃ before, steps = before ++ [step] ∧ ∀ other ∈ before, other.call.isHandover = false := by
  cases h with
  | hidden =>
    obtain rfl := List.mem_singleton.mp hstep
    cases hcall
  | restarted hexpose hfirst _ hown =>
    rcases List.mem_cons.mp hstep with rfl | hin
    · cases hcall
    · obtain rfl := List.mem_singleton.mp hin
      exact ⟨hown, hfirst, ⟨_, _, rfl⟩, hexpose, [_], rfl, by simp [LaunchCall.isHandover]⟩
  | ran _ _ _ hruns =>
    rcases List.mem_cons.mp hstep with rfl | hin
    · cases hcall
    · rw [(hruns.stays step hin).1] at hcall
      cases hcall
  | ranAgain _ _ _ hruns =>
    rcases List.mem_cons.mp hstep with rfl | hin
    · cases hcall
    · rcases List.mem_cons.mp hin with rfl | hin
      · cases hcall
      · rw [(hruns.stays step hin).1] at hcall
        cases hcall

/-- **When a launch hands over**, no directory has been handed to it: it has extracted one
itself, or it replaces itself and has not been replaced before. -/
theorem Course.handsOver (h : Course env setup s w r s' steps w') (hstep : step ∈ steps)
    (hcall : step.call.isHandover = true) : ∃ a s₁ opening w₁,
      Opening env s w (.ok a) s₁ opening w₁ ∧
        HandsOver env setup a s₁ w₁ r s' steps w' step := by
  have hskip {before rest : List (LaunchStep τ)}
      (hbefore : ∀ other ∈ before, other.call.isHandover = false)
      (hin : step ∈ before ++ rest) : step ∈ rest := by
    refine (List.mem_append.mp hin).resolve_left fun hin => ?_
    rw [hbefore step hin] at hcall
    cases hcall
  cases h with
  | unopened hopen =>
    rw [hopen.stays step hstep] at hcall
    cases hcall
  | @extracts a s₁ _ opening rest w₁ _ _ hopen hfirst hneeds hextracts =>
    refine ⟨a, s₁, opening, w₁, hopen, ?_⟩
    have hin := hskip hopen.stays hstep
    cases hextracts with
    | failed hextract =>
      rw [hextract.heard.stays step hin] at hcall
      cases hcall
    | hidden hextract =>
      obtain rfl := List.mem_singleton.mp (hskip hextract.heard.stays hin)
      cases hcall
    | @respawned dir changed answer heard w₂ w₃ _ hextract hexpose hrespawn =>
      rcases List.mem_cons.mp (hskip hextract.heard.stays hin) with rfl | hlast
      · cases hcall
      · obtain rfl := List.mem_singleton.mp hlast
        refine ⟨hfirst, ⟨opening ++ heard ++ [⟨.exposeHome dir (.ok changed), w₂, w₃⟩], by
          simp, ?_⟩,
          .inl ⟨hneeds, dir, ⟨heard, w₂, changed, hextract, hexpose⟩, rfl, answer, rfl,
            hrespawn, rfl⟩⟩
        refine List.forall_mem_append.mpr
          ⟨List.forall_mem_append.mpr ⟨hopen.stays, hextract.heard.stays⟩, ?_⟩
        simp [LaunchCall.isHandover]
  | @runsExtracted a dir s₁ _ opening rest w₁ w₂ _ _ hopen _ _ hruns =>
    have hclear : ∀ other ∈ opening ++ [⟨.clearHandshake, w₁, w₂⟩],
        other.call.isHandover = false :=
      List.forall_mem_append.mpr ⟨hopen.stays, by simp [LaunchCall.isHandover]⟩
    rw [List.append_cons] at hstep
    cases (hruns.handsOver (hskip hclear hstep) hcall).1
  | @runs a s₁ _ opening rest w₁ _ _ hopen hfirst hneeds hruns =>
    obtain ⟨-, hagain, hrestart, hexpose, before, rfl, hbefore⟩ :=
      hruns.handsOver (hskip hopen.stays hstep) hcall
    refine ⟨a, s₁, opening, w₁, hopen, hfirst, ?_, .inr ⟨hneeds, hagain, hrestart, _, hexpose⟩⟩
    exact ⟨opening ++ before, (List.append_assoc ..).symm,
      List.forall_mem_append.mpr ⟨hopen.stays, hbefore⟩⟩

/-! ## When a launch extracts -/

/-- **When a launch makes a directory**, its container needs one and none has been handed
to it. -/
theorem Course.extracts_of_ownedDir (h : Course env setup s w r s' steps w')
    (hnone : s.session.ownedDir = none) (howns : s'.session.ownedDir.isSome = true) :
    setup.handshake.extractDir = none ∧ ∃ a s₁ opening w₁,
      Opening env s w (.ok a) s₁ opening w₁ ∧ a.needsExtraction = true := by
  have hopening {result : Except LaunchError Archive} {s₁ : LaunchState}
      {opening : List (LaunchStep τ)} {w₁ : World τ} (hopen :
        Opening env s w result s₁ opening w₁) :
      s₁.session.ownedDir = none := by
    cases hopen <;> exact hnone
  cases h with
  | unopened hopen =>
    rw [hopening hopen] at howns
    cases howns
  | extracts hopen hfirst hneeds => exact ⟨hfirst, _, _, _, _, hopen, hneeds⟩
  | runsExtracted hopen _ _ hruns =>
    rw [hruns.session, hopening hopen] at howns
    cases howns
  | runs hopen _ _ hruns =>
    rw [hruns.session, hopening hopen] at howns
    cases howns

/-! ## How often a runtime is started -/

end

/-- The steps in which a runtime is started. -/
def starts (steps : List (LaunchStep τ)) : List (LaunchStep τ) := steps.filter (·.call.isStart)

@[simp] theorem starts_append (steps more : List (LaunchStep τ)) :
    starts (steps ++ more) = starts steps ++ starts more :=
  List.filter_append _ _

theorem starts_eq_nil (h : ∀ step ∈ steps, step.call.isStart = false) : starts steps = [] :=
  List.filter_eq_nil_iff.mpr fun step hstep => by simp [h step hstep]

variable [Zlib.Inflater]

/-- **A launch starts at most one runtime.** -/
theorem Course.starts_le (h : Course env setup s w r s' steps w') (hs : s.hasRuntime = false) :
    (starts (steps ++ finishing env s' w')).length ≤ 1 := by
  have hfinish : starts (finishing env s' w') = [] := by
    rw [finishing]
    split <;> rfl
  rw [starts_append, hfinish, List.append_nil]
  rcases h.cases hs with ⟨hstops, -⟩ | ⟨a, s₀, prelude, run, w₀, -, hgoes⟩
  · rw [starts_eq_nil fun step hstep =>
      LaunchCall.not_isStart ((hstops.calls step hstep).elim
        (fun h => (LaunchCall.of_isPreparing h).2.2.1) fun h => (LaunchCall.of_isHandover h).1)]
    exact Nat.zero_le 1
  · obtain ⟨rfl, hcalls, -, -, hruns⟩ := hgoes
    have hprelude : starts prelude = [] := starts_eq_nil fun step hstep =>
      LaunchCall.not_isStart (LaunchCall.of_isPreparing (hcalls step hstep).1).2.2.1
    rw [starts_append, hprelude, List.nil_append]
    rcases hruns.shape with ⟨e, w₁, -, rfl⟩ | ⟨-, w₁, w₂, answer, fed, -, rfl, hfed, -⟩
    · exact Nat.zero_le 1
    · have hnone : starts fed = [] := starts_eq_nil fun step hstep =>
        LaunchCall.not_isStart_of_isFeeding (hfed step hstep)
      rw [starts_append, hnone, List.append_nil]
      exact Nat.le_refl 1

/-- **A launch that hands over makes no call to a runtime.** -/
theorem Course.silent (h : Course env setup s w r s' steps w') (hs : s.hasRuntime = false)
    (hstep : step ∈ steps) (hcall : step.call.isHandover = true) :
    s'.hasRuntime = false ∧ ∀ other ∈ steps, other.call.isRuntime = false := by
  rcases h.cases hs with ⟨hstops, -⟩ | ⟨a, s₀, prelude, run, w₀, -, hgoes⟩
  · exact ⟨hstops.unmade, fun other hother => (hstops.calls other hother).elim
      (fun h => (LaunchCall.of_isPreparing h).2.2.1) fun h => (LaunchCall.of_isHandover h).1⟩
  · obtain ⟨rfl, hcalls, -, -, hruns⟩ := hgoes
    rcases List.mem_append.mp hstep with hin | hin
    · rw [(LaunchCall.of_isPreparing (hcalls step hin).1).1] at hcall
      cases hcall
    · rw [(hruns.stays step hin).1] at hcall
      cases hcall

end Launch

/-! ## Launchers that start launchers -/

namespace Native.LauncherProcess

open Launch

variable {p q : LauncherProcess} {a b : Archive}

variable [Zlib.Inflater]

/-- The steps in which a process hands over to another one. -/
def handovers (p : LauncherProcess) : List (LaunchStep Console) :=
  p.steps.filter (·.call.isHandover)

/-- **A process that hands over** does so once, as the last thing that it does, and makes
no call to a runtime. -/
theorem handsOver_of_mem {step : LaunchStep Console} (hstep : step ∈ p.steps)
    (hcall : step.call.isHandover = true) : ∃ a s₁ opening w₁ w₂,
      Opening p.surroundings (initial p.argv) (freshWorld p.world) (.ok a) s₁ opening w₁ ∧
      HandsOver p.surroundings (setupOf p.world.env) a s₁ w₁ p.result p.lastState p.steps w₂ step ∧
      p.launched = ((finish p.surroundings p.lastState).apply w₂).2 ∧
      p.lastState.hasRuntime = false ∧ runtimeCalls p.steps = [] := by
  obtain ⟨course, w₂, hcourse, hsteps, hlaunched⟩ := p.exists_course
  have hfinish : ∀ step ∈ finishing p.surroundings p.lastState w₂,
      step.call.isHandover = false := by
    rw [finishing]
    split <;> simp [LaunchCall.isHandover]
  have hin : step ∈ course := by
    rw [hsteps] at hstep
    refine (List.mem_append.mp hstep).resolve_right fun hin => ?_
    rw [hfinish step hin] at hcall
    cases hcall
  obtain ⟨a, s₁, opening, w₁, hopen, hhands⟩ := hcourse.handsOver hin hcall
  obtain ⟨hunmade, hsilent⟩ := hcourse.silent rfl hin hcall
  have hall : p.steps = course := by
    rw [hsteps, finishing, hunmade, if_neg Bool.false_ne_true, List.append_nil]
  refine ⟨a, s₁, opening, w₁, w₂, hopen, hall ▸ hhands, hlaunched, hunmade, ?_⟩
  rw [hall]
  exact List.filter_eq_nil_iff.mpr fun other hother => by simp [hsilent other hother]

/-- A process hands over once, if it does. -/
theorem handovers_eq_singleton {step : LaunchStep Console} (hstep : step ∈ p.steps)
    (hcall : step.call.isHandover = true) : p.handovers = [step] := by
  obtain ⟨a, s₁, opening, w₁, w₂, -, hhands, -⟩ := handsOver_of_mem hstep hcall
  obtain ⟨before, hsteps, hbefore⟩ := hhands.last
  have hnone : before.filter (·.call.isHandover) = [] :=
    List.filter_eq_nil_iff.mpr fun other hother => by simp [hbefore other hother]
  rw [handovers, hsteps, List.filter_append, hnone]
  simp [hcall]

/-- A process that has been told of a directory does not hand over. -/
theorem handovers_eq_nil {dir : Path} (h : p.handshake.extractDir = some dir) :
    p.handovers = [] := by
  refine List.filter_eq_nil_iff.mpr fun step hstep hcall => ?_
  obtain ⟨a, s₁, opening, w₁, w₂, -, hhands, -⟩ := handsOver_of_mem hstep hcall
  have hfirst : p.handshake.extractDir = none := hhands.first
  rw [h] at hfirst
  cases hfirst

/-- A process that makes a directory has opened a container that needs one, and has not
been told of a directory. -/
theorem opens_of_extracts (h : p.Extracts) :
    p.handshake.extractDir = none ∧ ∃ a, p.Opens a ∧ a.needsExtraction = true := by
  obtain ⟨course, w₂, hcourse, -⟩ := p.exists_course
  obtain ⟨hfirst, a, s₁, opening, w₁, hopen, hneeds⟩ := hcourse.extracts_of_ownedDir rfl h
  exact ⟨hfirst, a, (opens_of_opening hopen).1, hneeds⟩

omit [Zlib.Inflater] in
theorem isHandover_of_handover? {c : LaunchCall} {session : LaunchSession} {message : Handshake}
    (h : handover? c = some (session, message)) : c.isHandover = true := by
  cases c <;> first | rfl | cases h

/-- **What a started process is told**: a directory, or that it is a replacement that has
nothing to extract. -/
theorem Starts.told (h : p.Starts q) : ∃ a, p.Opens a ∧
    ((∃ dir, q.handshake.extractDir = some dir) ∨
      (a.needsExtraction = false ∧ q.handshake = ⟨none, true⟩)) := by
  obtain ⟨step, hstep, session, message, hover, -, -, hworld⟩ := h
  obtain ⟨a, s₁, opening, w₁, w₂, hopen, hhands, -⟩ :=
    handsOver_of_mem hstep (isHandover_of_handover? hover)
  obtain ⟨hopens, henv⟩ := opens_of_opening hopen
  refine ⟨a, hopens, ?_⟩
  have hreads : q.handshake = .fromEnvironment (step.before.env.setAll message.pairs) := by
    rw [handshake, hworld]
    rfl
  rw [hreads]
  rcases hhands.reason with ⟨-, dir, ⟨heard, w, changed, hextract, -⟩, -, answer, hrespawn, -⟩ |
    ⟨hneeds, -, ⟨s, answer, hrestart⟩, home, hexpose⟩
  · rw [hrespawn] at hover
    cases hover
    exact .inl ⟨dir, Handshake.fromEnvironment_forChild _ hextract.text_ne_empty⟩
  · rw [hrestart] at hover
    cases hover
    have hbefore : step.before.env = (LibraryPath.expose home p.world.env).2 := by
      rw [(exposeHome_eq_ok hexpose).2, ← henv]
    refine .inr ⟨hneeds, ?_⟩
    rw [Handshake.fromEnvironment_forRestart, hbefore, LibraryPath.fromEnvironment_expose]
    exact congrArg (Handshake.mk · true) hhands.first

/-- **A started process is the last one**, as long as both need extraction or neither
does. -/
theorem Starts.last (h : p.Starts q)
    (hsame : ∀ a b, p.Opens a → q.Opens b → a.needsExtraction = b.needsExtraction) :
    q.handovers = [] ∧ ¬q.Extracts := by
  obtain ⟨a, hopens, ⟨dir, hdir⟩ | ⟨hneeds, hmessage⟩⟩ := h.told
  · refine ⟨handovers_eq_nil hdir, fun hextracts => ?_⟩
    rw [(opens_of_extracts hextracts).1] at hdir
    cases hdir
  · constructor
    · refine List.filter_eq_nil_iff.mpr fun step hstep hcall => ?_
      obtain ⟨b, s₁, opening, w₁, w₂, hopen, hhands, -⟩ := handsOver_of_mem hstep hcall
      rcases hhands.reason with ⟨hneeds', -⟩ | ⟨-, hagain, -⟩
      · rw [← hsame a b hopens (opens_of_opening hopen).1, hneeds] at hneeds'
        cases hneeds'
      · have hmark : q.handshake.restarted = false := hagain
        rw [hmessage] at hmark
        cases hmark
    · intro hextracts
      obtain ⟨-, b, hopens', hneeds'⟩ := opens_of_extracts hextracts
      rw [← hsame a b hopens hopens', hneeds] at hneeds'
      cases hneeds'

/-- A process that starts another one starts no runtime, and does so once. -/
theorem Starts.first (h : p.Starts q) : p.handovers.length = 1 ∧ starts p.steps = [] := by
  obtain ⟨step, hstep, session, message, hover, -, -⟩ := h
  have hcall := isHandover_of_handover? hover
  obtain ⟨a, s₁, opening, w₁, w₂, -, -, -, -, hsilent⟩ := handsOver_of_mem hstep hcall
  refine ⟨by rw [handovers_eq_singleton hstep hcall]; rfl, ?_⟩
  refine starts_eq_nil fun other hother => LaunchCall.not_isStart ?_
  simpa using List.filter_eq_nil_iff.mp hsilent other hother

/-- A process hands over once at most. -/
theorem handovers_le (p : LauncherProcess) : p.handovers.length ≤ 1 := by
  by_cases hhands : ∃ step ∈ p.steps, step.call.isHandover = true
  · obtain ⟨step, hstep, hcall⟩ := hhands
    rw [handovers_eq_singleton hstep hcall]
    exact Nat.le_refl 1
  · have hnone : p.handovers = [] :=
      List.filter_eq_nil_iff.mpr fun step hstep hcall => hhands ⟨step, hstep, hcall⟩
    rw [hnone]
    exact Nat.zero_le 1

/-- A process starts one runtime at most. -/
theorem starts_steps_le (p : LauncherProcess) : (starts p.steps).length ≤ 1 := by
  obtain ⟨course, w₂, hcourse, hsteps, -⟩ := p.exists_course
  rw [hsteps]
  exact hcourse.starts_le rfl

end Native.LauncherProcess

namespace Native

open Launch LauncherProcess

/-- What a chain of launchers comes to. -/
structure Ends [Zlib.Inflater] (ps : List LauncherProcess) : Prop where
  /-- There are two processes at most. -/
  length_le : ps.length ≤ 2
  /-- Each of them hands over once at most. -/
  handovers_le : ∀ p ∈ ps, p.handovers.length ≤ 1
  /-- Only the first one hands over. -/
  last : ∀ p ∈ ps.tail, p.handovers = []
  /-- One of them at most makes an extraction directory. -/
  extracts_le : ps.countP (·.Extracts) ≤ 1
  /-- All of them together start one runtime at most. -/
  starts_le : (ps.flatMap (starts ·.steps)).length ≤ 1

/-- **A chain of launchers ends.**  However the environment of the first one has been set
up, and whatever each of them finds, the second process of a chain is its last one; and all
of them together extract at most once and start at most one runtime.  All that is asked is
that they agree on whether their container needs extraction. -/
theorem chain_ends [Zlib.Inflater] (ps : List LauncherProcess) (hchain : ps.IsChain Starts)
    (hsame : ∀ p ∈ ps, ∀ q ∈ ps, ∀ a b, p.Opens a → q.Opens b →
      a.needsExtraction = b.needsExtraction) : Ends ps := by
  match ps with
  | [] => exact ⟨by simp, by simp, by simp, by simp, by simp⟩
  | [p] =>
    refine ⟨by simp, by simp [p.handovers_le], by simp, ?_, ?_⟩
    · exact List.countP_le_length
    · simpa using p.starts_steps_le
  | [p, q] =>
    have hstarts : p.Starts q := by simpa using hchain
    obtain ⟨hlast, hextracts⟩ := hstarts.last (hsame p (by simp) q (by simp))
    obtain ⟨-, hnone⟩ := hstarts.first
    refine ⟨by simp, by simp [p.handovers_le, q.handovers_le], by simp [hlast], ?_, ?_⟩
    · have hnot : [q].countP (·.Extracts) = 0 := by simp [hextracts]
      rw [← List.singleton_append, List.countP_append, hnot]
      exact List.countP_le_length
    · simpa [hnone] using q.starts_steps_le
  | p :: q :: next :: rest =>
    -- the second process would hand over
    have hstarts : p.Starts q ∧ q.Starts next := by
      simp only [List.isChain_cons_cons] at hchain
      exact ⟨hchain.1, hchain.2.1⟩
    have hlast := (hstarts.1.last (hsame p (by simp) q (by simp))).1
    have hfirst := hstarts.2.first.1
    rw [hlast] at hfirst
    cases hfirst

/-- The general statement for a program that extracts and the copy that it starts. -/
theorem chain_ends_sampleProcess : ∃ q, sampleProcess.Starts q ∧ Ends [sampleProcess, q] := by
  have hnext : (sampleProcess.next? (run 1)).isSome = true := by decide +kernel
  obtain ⟨q, hq⟩ := Option.isSome_iff_exists.mp hnext
  have hstarts := starts_of_next? hq
  have hfirst : sampleProcess.opened.toOption.all (·.needsExtraction) = true := by
    decide +kernel
  have hsecond : (sampleProcess.next? (run 1)).all
      (fun q => q.opened.toOption.all (·.needsExtraction)) = true := by decide +kernel
  have hneeds : ∀ p ∈ [sampleProcess, q], ∀ a, p.Opens a → a.needsExtraction = true := by
    intro p hp a ha
    rw [Opens] at ha
    obtain rfl | rfl : p = sampleProcess ∨ p = q := by simpa using hp
    · simpa [ha, Except.toOption] using hfirst
    · simpa [hq, ha, Except.toOption] using hsecond
  refine ⟨q, hstarts, chain_ends [sampleProcess, q] (by simpa using hstarts) ?_⟩
  intro p hp p' hp' a b ha hb
  rw [hneeds p hp a ha, hneeds p' hp' b hb]

end Native

end Stowage
