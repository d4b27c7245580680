import Stowage.Zlib.Decoder
import Stowage.Proofs.Zlib.Whole

/-!
# The zlib decoder keeps its promises

What the callers of a streaming decoder rely on is said by what decoding in one piece
gives for the input that it has taken (`Decoder.DecodesZlib`): it gives a part of that
output and no more, it reports the end and a break only where they are, it gets on, and
it holds nothing back once a stream has been taken whole.  This says nothing about how
the decoder splits its work.

The zlib decoder fulfils this (`decodesZlib_zlib`), although it works ahead in a window,
stops where the window is full and delivers later what it has decoded.
-/

namespace Stowage.Zlib

/-- **The calls so far**, none of which has reported the end, have led to a state, taken
some input and given some output. -/
inductive Decoder.Reaches (d : Decoder) : d.State → Bytes → Bytes → Prop
  | start : d.Reaches d.start [] []
  | call {state : d.State} {taken given offered : Bytes} {room : Nat}
      {p : Progress d.State offered room} : d.Reaches state taken given → 0 < room →
      d.step state offered room = some p → p.ended = false →
      d.Reaches p.state (taken ++ offered.take p.read) (given ++ p.output)

/-- **A correct streaming decoder** for zlib streams. -/
structure Decoder.DecodesZlib (d : Decoder) : Prop where
  /-- A call fails only if the input breaks the format. -/
  refuses : ∀ {state : d.State} {taken given offered : Bytes} {room : Nat},
    d.Reaches state taken given → 0 < room → d.step state offered room = none →
    (decode (taken ++ offered)).outcome = .corrupt
  /-- What is given is decoded from what has been taken. -/
  gives : ∀ {state : d.State} {taken given offered : Bytes} {room : Nat}
    {p : Progress d.State offered room}, d.Reaches state taken given → 0 < room →
    d.step state offered room = some p →
    given ++ p.output <+: (decode (taken ++ offered.take p.read)).output
  /-- The end is reported only where it is, and when everything has been given. -/
  ends : ∀ {state : d.State} {taken given offered : Bytes} {room : Nat}
    {p : Progress d.State offered room}, d.Reaches state taken given → 0 < room →
    d.step state offered room = some p → p.ended = true →
    decode (taken ++ offered.take p.read) = ⟨.complete, given ++ p.output⟩
  /-- With input and room, a call that is not the last takes or gives something. -/
  moves : ∀ {state : d.State} {taken given offered : Bytes} {room : Nat}
    {p : Progress d.State offered room}, d.Reaches state taken given → 0 < room →
    d.step state offered room = some p → offered ≠ [] → p.read = 0 → p.output = [] →
    p.ended = true
  /-- When a stream has been taken whole and some room is left, the end is reported. -/
  finishes : ∀ {state : d.State} {taken given offered : Bytes} {room : Nat}
    {p : Progress d.State offered room}, d.Reaches state taken given → 0 < room →
    d.step state offered room = some p → p.read = offered.length → p.output.length < room →
    (decode (taken ++ offered)).outcome = .complete → p.ended = true

namespace Stream

variable {s : Stream} {taken given input : Bytes} {room : Nat}

/-- What a state of the zlib decoder stands for after it has taken some input and given
some output: its machine goes on as one that has been run on the input in one piece. -/
structure Stands (s : Stream) (taken given : Bytes) : Prop where
  resumes : ∀ later, Machine.start.runAll (taken ++ later) = s.machine.runAll later
  given_eq : given = s.machine.history.toList.take s.delivered
  delivered_le : s.delivered ≤ s.machine.history.size
  rests : s.machine.phase = .ended ∨ s.machine.Pausing

theorem stands_start : Stands ⟨.start, 0⟩ [] [] :=
  ⟨fun _ => rfl, rfl, Nat.le_refl _, .inr (Machine.pausing_of_phase nofun nofun)⟩

theorem isOver_iff : s.isOver = true ↔ s.machine.phase = .ended ∧ s.pending = 0 := by
  rw [isOver]
  split
  · rename_i h
    rw [decide_eq_true_iff]
    exact ⟨fun hp => ⟨h, hp⟩, fun hp => hp.2⟩
  · rename_i h
    exact ⟨fun hp => (by cases hp), fun hp => absurd hp.1 h⟩

theorem isBroken_iff : s.isBroken = true ↔ s.machine.phase = .broken := by
  rw [isBroken]
  split
  · exact ⟨fun _ => ‹_›, fun _ => rfl⟩
  · exact ⟨fun h => (by cases h), fun h => absurd h ‹_›⟩

theorem Stands.decode_eq (h : s.Stands taken given) :
    decode taken = ⟨(s.machine.runAll []).1.outcome, (s.machine.runAll []).1.history.toList⟩ := by
  have hresumes := h.resumes []
  rw [List.append_nil] at hresumes
  rw [decode, hresumes]

/-- What has been given is a part of the output. -/
theorem Stands.isPrefix (h : s.Stands taken given) : given <+: (decode taken).output := by
  rw [h.decode_eq, h.given_eq]
  exact (List.take_prefix _ _).trans (s.machine.history_isPrefix_runAll [])

/-- When the decoder says that the stream is over, it is, and all of it has been given. -/
theorem Stands.decode_of_isOver (h : s.Stands taken given) (hover : s.isOver = true) :
    decode taken = ⟨.complete, given⟩ := by
  obtain ⟨hended, hpending⟩ := isOver_iff.mp hover
  have hall : s.machine.history.toList.take s.delivered = s.machine.history.toList := by
    refine List.take_of_length_le ?_
    rw [Array.length_toList]
    exact Nat.le_of_sub_eq_zero hpending
  rw [h.decode_eq, Machine.runAll_of_over (.inl hended), h.given_eq, hall,
    Machine.outcome_eq_complete_iff.mpr hended]

/-- When a stream has been taken whole and nothing is pending, the decoder says so. -/
theorem Stands.isOver (h : s.Stands taken given) (hpending : s.pending = 0)
    (hcomplete : (decode taken).outcome = .complete) : s.isOver = true := by
  refine isOver_iff.mpr ⟨?_, hpending⟩
  rw [h.decode_eq] at hcomplete
  exact h.rests.resolve_right fun hpausing =>
    hpausing.not_ended_runAll (Machine.outcome_eq_complete_iff.mp hcomplete)

/-! ## Delivering -/

theorem Stands.deliver (h : s.Stands taken given) (room : Nat) :
    (s.deliver room).2.length = min room s.pending ∧
    (s.deliver room).1.pending = s.pending - min room s.pending ∧
    (s.deliver room).1.Stands taken (given ++ (s.deliver room).2) := by
  obtain ⟨hresumes, hgiven, hdelivered, hrests⟩ := h
  have hpending : s.pending = s.machine.history.size - s.delivered := rfl
  have hcount : min room s.pending ≤ s.machine.history.size - s.delivered := Nat.min_le_right ..
  have hout : (s.deliver room).2 =
      (s.machine.history.toList.drop s.delivered).take (min room s.pending) := by
    show (s.machine.history.extract _ _).toList = _
    rw [Array.toList_extract, List.extract_eq_take_drop, Nat.add_sub_cancel_left]
  refine ⟨?_, ?_, hresumes, ?_, ?_, hrests⟩
  · rw [hout, List.length_take, List.length_drop, Array.length_toList]
    omega
  · show s.machine.history.size - (s.delivered + min room s.pending) = _
    omega
  · show _ = s.machine.history.toList.take (s.delivered + min room s.pending)
    rw [hgiven, hout, List.take_add]
  · show s.delivered + min room s.pending ≤ s.machine.history.size
    omega

/-! ## Decoding ahead -/

/-- What a call has done that was given some input and some room, after some input had
been taken and some output given. -/
structure Advances (room : Nat) (input taken given : Bytes) (after : Stream)
    (delivered rest : Bytes) : Prop where
  fits : delivered.length ≤ room
  stands : ∃ read, input = read ++ rest ∧ after.Stands (taken ++ read) (given ++ delivered)
  flushed : delivered.length < room → after.pending = 0
  moves : rest = input → delivered = [] → input ≠ [] → after.isOver = true

/-- The machine decodes a piece of the input. -/
theorem Stands.run (h : s.Stands taken given) (room : Nat) (input : Bytes) :
    ∃ read, input = read ++ (s.machine.run room input).2 ∧
      ({ s with machine := (s.machine.run room input).1 } : Stream).Stands (taken ++ read)
        given := by
  have hruns := Machine.runs_run s.machine room input
  obtain ⟨read, hread, hresumes⟩ := hruns.resumes
  obtain ⟨written, hhistory, -⟩ := hruns.history
  refine ⟨read, hread, fun later => ?_, ?_, Nat.le_trans h.delivered_le hruns.size_le.1,
    hruns.pausing⟩
  · rw [List.append_assoc, h.resumes, hresumes]
  · show given = (s.machine.run room input).1.history.toList.take s.delivered
    rw [hhistory, List.take_append_of_le_length (by rw [Array.length_toList]; exact h.delivered_le)]
    exact h.given_eq

theorem windowRoom_pos (s : Stream) : 0 < s.windowRoom :=
  Nat.sub_pos_of_lt (Nat.mod_lt _ (by decide))

/-- One stretch of decoding ahead and delivering, unless it meets a break. -/
theorem Stands.advance (h : s.Stands taken given) (hpending : s.pending = 0) (hroom : 0 < room)
    (hsound : (s.machine.run s.windowRoom input).1.phase ≠ .broken) :
    Advances room input taken given
      (({ s with machine := (s.machine.run s.windowRoom input).1 } : Stream).deliver room).1
      (({ s with machine := (s.machine.run s.windowRoom input).1 } : Stream).deliver room).2
      (s.machine.run s.windowRoom input).2 := by
  have hruns := Machine.runs_run s.machine s.windowRoom input
  obtain ⟨read, hread, hahead⟩ := h.run s.windowRoom input
  obtain ⟨hlength, hafter, hstands⟩ := hahead.deliver room
  refine ⟨by omega, ⟨read, hread, hstands⟩, fun hlt => by omega, fun hrest hnil hne => ?_⟩
  rw [hnil, List.length_nil] at hlength
  refine isOver_iff.mpr ⟨?_, by omega⟩
  rcases hruns.used_up with hended | hbroken | hrest' | hsize
  · exact hended
  · exact absurd hbroken hsound
  · exact absurd (hrest.symm.trans hrest') hne
  · -- the window was filled, so there was something to deliver
    have hpos := s.windowRoom_pos
    have : s.machine.history.size - s.delivered = 0 := hpending
    have : (s.machine.run s.windowRoom input).1.history.size - s.delivered = 0 := by
      have hzero : min room (_ : Nat) = 0 := hlength.symm
      rw [Nat.min_eq_zero_iff] at hzero
      exact hzero.resolve_left (Nat.ne_of_gt hroom)
    have := h.delivered_le
    omega

/-- A run that breaks in some room breaks in all room. -/
theorem Stands.corrupt_of_broken (h : s.Stands taken given)
    (hbroken : (s.machine.run room input).1.phase = .broken) :
    (decode (taken ++ input)).outcome = .corrupt := by
  obtain ⟨read, hread, hahead⟩ := h.run room input
  rw [decode, hread, ← List.append_assoc, hahead.resumes, Machine.runAll_of_over (.inr hbroken)]
  exact Machine.outcome_eq_corrupt_iff.mpr hbroken

/-- One stretch after another, of which the first has delivered something. -/
theorem Advances.append {read delivered rest more rest' : Bytes} {final : Stream}
    (hpos : 0 < delivered.length) (hle : delivered.length ≤ room)
    (h : Advances (room - delivered.length) rest (taken ++ read) (given ++ delivered) final more
      rest') : Advances room (read ++ rest) taken given final (delivered ++ more) rest' := by
  refine ⟨?_, ?_, ?_, ?_⟩
  · have := h.fits
    rw [List.length_append]
    omega
  · obtain ⟨read', rfl, hstands⟩ := h.stands
    refine ⟨read ++ read', (List.append_assoc ..).symm, ?_⟩
    rwa [← List.append_assoc, ← List.append_assoc]
  · intro hlt
    rw [List.length_append] at hlt
    exact h.flushed (by omega)
  · intro _ hnil _
    rw [(List.append_eq_nil_iff.mp hnil).1] at hpos
    exact absurd hpos (Nat.lt_irrefl 0)

/-- **Decoding ahead**, window after window, as far as there is room, or up to a break. -/
theorem Stands.fill (h : s.Stands taken given) (hpending : s.pending = 0) (hroom : 0 < room) :
    (s.fill input room = none ∧ (decode (taken ++ input)).outcome = .corrupt) ∨
    ∃ after delivered rest, s.fill input room = some (after, delivered, rest) ∧
      Advances room input taken given after delivered rest := by
  induction room using Nat.strongRecOn generalizing s taken given input with
  | ind room ih =>
    rw [Stream.fill]
    by_cases hbroken : (s.machine.run s.windowRoom input).1.phase = .broken
    · have hnone : ({ s with machine := (s.machine.run s.windowRoom input).1 } : Stream).isBroken =
          true := isBroken_iff.mpr hbroken
      refine .inl ⟨?_, h.corrupt_of_broken hbroken⟩
      simp only [hnone, if_true]
    have hadvance := h.advance hpending hroom hbroken
    have hsound : ({ s with machine := (s.machine.run s.windowRoom input).1 } : Stream).isBroken =
        false := Bool.eq_false_iff.mpr fun hb => hbroken (isBroken_iff.mp hb)
    simp only [hsound, Bool.false_eq_true, if_false]
    generalize ({ s with machine := (s.machine.run s.windowRoom input).1 } : Stream).deliver room =
      p at hadvance ⊢
    generalize (s.machine.run s.windowRoom input).2 = rest at hadvance ⊢
    obtain ⟨after, delivered⟩ := p
    dsimp only at hadvance ⊢
    split
    · exact .inr ⟨after, delivered, rest, rfl, hadvance⟩
    split
    · rename_i hpart
      obtain ⟨read, rfl, hstands⟩ := hadvance.stands
      rcases ih (room - delivered.length) (by omega) hstands (hadvance.flushed hpart.2)
        (by omega) with ⟨hnone, hcorrupt⟩ | ⟨final, more, rest', hfill, hmore⟩
      · rw [List.append_assoc] at hcorrupt
        exact .inl ⟨by rw [hnone]; rfl, hcorrupt⟩
      rw [hfill]
      exact .inr ⟨final, delivered ++ more, rest', rfl, hmore.append hpart.1 hadvance.fits⟩
    · exact .inr ⟨after, delivered, rest, rfl, hadvance⟩

/-- A call with something pending delivers it and takes nothing. -/
theorem Stands.advance_pending (h : s.Stands taken given) (hpending : 0 < s.pending)
    (hroom : 0 < room) :
    Advances room input taken given (s.deliver room).1 (s.deliver room).2 input := by
  obtain ⟨hlength, hafter, hstands⟩ := h.deliver room
  refine ⟨by omega, ⟨[], rfl, ?_⟩, fun hlt => by omega, fun _ hnil _ => ?_⟩
  · rwa [List.append_nil]
  · rw [hnil, List.length_nil] at hlength
    omega

/-! ## Calls -/

/-- What a call of the zlib decoder has done. -/
structure Calls (taken given offered : Bytes) (room : Nat) (p : Progress Stream offered room) :
    Prop where
  stands : p.state.Stands (taken ++ offered.take p.read) (given ++ p.output)
  ended_eq : p.ended = p.state.isOver
  flushed : p.output.length < room → p.state.pending = 0
  moves : offered ≠ [] → p.read = 0 → p.output = [] → p.ended = true

/-- **One call** of the zlib decoder. -/
theorem Stands.step (h : s.Stands taken given) (hroom : 0 < room) (offered : Bytes) :
    (s.step offered room = none ∧ (decode (taken ++ offered)).outcome = .corrupt) ∨
    ∃ p, s.step offered room = some p ∧ Calls taken given offered room p := by
  have hcall : (¬0 < s.pending ∧ s.fill offered room = none ∧
        (decode (taken ++ offered)).outcome = .corrupt) ∨
      ∃ after delivered rest, (if 0 < s.pending then
        some ((s.deliver room).1, (s.deliver room).2, offered)
        else s.fill offered room) = some (after, delivered, rest) ∧
        Advances room offered taken given after delivered rest := by
    by_cases hpending : 0 < s.pending
    · rw [if_pos hpending]
      exact .inr ⟨_, _, _, rfl, h.advance_pending hpending hroom⟩
    · rw [if_neg hpending]
      exact (h.fill (Nat.eq_zero_of_not_pos hpending) hroom).imp_left (And.intro hpending)
  rw [Stream.step]
  rcases hcall with ⟨hpending, hnone, hcorrupt⟩ | ⟨after, delivered, rest, hcall, hadvance⟩
  · refine .inl ⟨?_, hcorrupt⟩
    rw [if_neg hpending, hnone]
    rfl
  obtain ⟨read, hread, hstands⟩ := hadvance.stands
  have hlength : offered.length - rest.length = read.length := by
    rw [hread, List.length_append, Nat.add_sub_cancel]
  have htake : offered.take (offered.length - rest.length) = read := by
    rw [hlength, hread, List.take_left]
  have hfits : delivered.take room = delivered := List.take_of_length_le hadvance.fits
  refine .inr ⟨⟨after, offered.length - rest.length, delivered.take room, after.isOver,
    Nat.sub_le _ _, List.length_take_le _ _⟩, ?_, ?_, rfl, ?_, ?_⟩
  · show Option.map _ (if 0 < s.pending then
      some ((s.deliver room).1, (s.deliver room).2, offered) else s.fill offered room) = _
    rw [hcall]
    rfl
  · show after.Stands (taken ++ offered.take (offered.length - rest.length))
      (given ++ delivered.take room)
    rwa [htake, hfits]
  · show (delivered.take room).length < room → after.pending = 0
    rw [hfits]
    exact hadvance.flushed
  · intro hne hzero hnil
    have hempty : read = [] := List.eq_nil_of_length_eq_zero (hlength.symm.trans hzero)
    rw [hempty] at hread
    exact hadvance.moves hread.symm (hfits.symm.trans hnil) hne

/-- Whatever calls have led to a state, it stands for what they have taken and given. -/
theorem stands_of_reaches {state : Decoder.zlib.State}
    (h : Decoder.zlib.Reaches state taken given) : Stands state taken given := by
  induction h with
  | start => exact stands_start
  | @call state taken given offered room p _ hroom hstep _ ih =>
    rcases ih.step hroom offered with ⟨hnone, -⟩ | ⟨p', hsome, hcalls⟩
    · cases hnone.symm.trans hstep
    · cases hsome.symm.trans hstep
      exact hcalls.stands

end Stream

/-- **The zlib decoder decodes zlib streams.** -/
theorem decodesZlib_zlib : Decoder.zlib.DecodesZlib := by
  have hcalls {state : Decoder.zlib.State} {taken given offered : Bytes} {room : Nat}
      {p : Progress Stream offered room} (h : Decoder.zlib.Reaches state taken given)
      (hroom : 0 < room) (hstep : Stream.step state offered room = some p) :
      Stream.Calls taken given offered room p := by
    rcases (Stream.stands_of_reaches h).step hroom offered with ⟨hnone, -⟩ | ⟨p', hsome, hcalls⟩
    · cases hnone.symm.trans hstep
    · cases hsome.symm.trans hstep
      exact hcalls
  constructor
  case refuses =>
    intro state taken given offered room h hroom hstep
    rcases (Stream.stands_of_reaches h).step hroom offered with ⟨-, hcorrupt⟩ | ⟨p, hsome, -⟩
    · exact hcorrupt
    · cases hsome.symm.trans hstep
  case gives =>
    intro state taken given offered room p h hroom hstep
    exact (hcalls h hroom hstep).stands.isPrefix
  case ends =>
    intro state taken given offered room p h hroom hstep hended
    have hcall := hcalls h hroom hstep
    exact hcall.stands.decode_of_isOver (hcall.ended_eq.symm.trans hended)
  case moves =>
    intro state taken given offered room p h hroom hstep
    exact (hcalls h hroom hstep).moves
  case finishes =>
    intro state taken given offered room p h hroom hstep hread hlt hcomplete
    have hcall := hcalls h hroom hstep
    rw [hcall.ended_eq]
    refine hcall.stands.isOver (hcall.flushed hlt) ?_
    rwa [hread, List.take_length]

end Stowage.Zlib
