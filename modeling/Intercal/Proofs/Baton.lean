import Intercal.Proofs.Crew

namespace Intercal.Crew

open Relay (Move)

variable {limit : Nat} {c d : Crew} {u v : Nat}

structure Abreast (limit : Nat) (c : Crew) (s : Relay.State) : Prop where
  sound : s.Sound limit
  result : c.result = none
  frames : c.frames = s.frames
  started : c.started = s.attempts + 1
  arranged : c.Arranged s.holder
  holder : c.status s.holder = .live s.baton ∨ c.status s.holder = .parked (some (.resumed s.baton))

/-- A failure ends the relay at once, and the crew a little later. -/
inductive Follows (limit : Nat) (c : Crew) : Relay.Turn → Prop
  | going {s : Relay.State} : c.Abreast limit s → Follows limit c (.going s)
  | failing {u : Nat} {d : Diagnostic} {baton : Option Nat} : c.result = none → c.Arranged u →
      c.status u = .failing d baton →
      Follows limit c (.ended (.failed (d.orTraced (Nexting.labels c.frames)) baton))
  | ended {r : Relay.Result} : c.result = some r → c.Dissolved → Follows limit c (.ended r)

theorem follows_start (limit baton : Nat) : (start baton).Follows limit (.going { baton }) :=
  .going ⟨Relay.sound_start limit baton, rfl, rfl, rfl, arranged_start baton, .inl rfl⟩

namespace Abreast

variable {s : Relay.State}

theorem fail (h : c.Abreast limit s) (d : Diagnostic) (baton : Option Nat) :
    (c.put s.holder (.failing d baton)).Follows limit (s.fail d baton).turn := by
  have hfollows : (c.put s.holder (.failing d baton)).Follows limit
      (.ended (.failed (d.orTraced (Nexting.labels c.frames)) baton)) :=
    .failing h.result (h.arranged.put rfl) (put_status_self ..)
  rwa [h.frames] at hfollows

theorem next (h : c.Abreast limit s) (label : Label) :
    (c.next limit s.holder s.baton label).Follows limit (Relay.step limit s (.next label)).turn := by
  by_cases hroom : s.frames.length < limit
  · have hstep : (Relay.step limit s (.next label)).turn = _ := Relay.step_next hroom
    have hsound := h.sound.step hstep
    have harranged := h.arranged.next label s.baton
    rw [h.frames] at harranged
    rw [hstep]
    simp only [Crew.next, Nexting.next, h.frames, hroom, if_true]
    rw [← h.started] at hsound ⊢
    exact .going ⟨hsound, h.result, rfl, rfl, harranged, .inl (put_status_self ..)⟩
  · rw [Relay.step_next_refused (Nat.not_lt.mp hroom)]
    simp only [Crew.next, Nexting.next, h.frames, hroom, if_false]
    exact h.fail _ _

theorem resume (h : c.Abreast limit s) (depth : Nat) :
    (c.resume s.holder s.baton (depth + 1)).Follows limit (Relay.step limit s (.resume (depth + 1))).turn := by
  cases hdrop : s.frames.drop depth with
  | nil =>
    rw [Relay.step_resume_refused (List.drop_eq_nil_iff.mp hdrop)]
    simp only [Crew.resume, Nexting.resume, Nat.add_sub_cancel, h.frames, hdrop]
    exact h.fail _ _
  | cons frame rest =>
    have hsplit : c.frames = s.frames.take depth ++ frame :: rest := by
      rw [h.frames, ← hdrop, List.take_append_drop]
    have hgone := h.arranged.drop hsplit
    have hhand := hgone.hand (by rw [abortAll_eq]) s.baton
    have hwait := hgone.waiting frame.waiter (by rw [abortAll_eq]; exact List.mem_cons_self)
    rw [abortAll_eq] at hhand hwait
    have hparked : (({ c with frames := rest } : Crew).abortAll (s.frames.take depth)).status frame.waiter =
        .parked none := by
      rw [abortAll_eq]
      exact hwait
    have hne : frame.waiter ≠ s.holder := by
      intro he
      have hmem : frame.waiter ∈ c.callers := by
        rw [callers, hsplit]
        simp
      exact h.arranged.not_mem (he ▸ hmem)
    have hstep : (Relay.step limit s (.resume (depth + 1))).turn = _ := Relay.step_resume hdrop
    have hsound := h.sound.step hstep
    rw [hstep]
    simp only [Crew.resume, Nexting.resume, Nat.add_sub_cancel, h.frames, hdrop, send?_of_parked hparked]
    rw [abortAll_eq]
    refine .going ⟨hsound, h.result, rfl, h.started, hhand, .inr ?_⟩
    rw [put_status_of_ne hne, put_status_self]

theorem forget (h : c.Abreast limit s) (hlive : c.status s.holder = .live s.baton) (depth : Nat) :
    (c.forget depth).Follows limit (Relay.step limit s (.forget depth)).turn := by
  have hsplit : c.frames = c.frames.take depth ++ c.frames.drop depth := (List.take_append_drop ..).symm
  have hdrop := h.arranged.drop hsplit
  have hu : s.holder ∉ (c.frames.take depth).map (·.waiter) := by
    intro hmem
    refine h.arranged.not_mem ?_
    rw [callers, hsplit, List.map_append]
    exact List.mem_append_left _ hmem
  have hsound := h.sound.step (Relay.step_forget depth)
  simp only [Crew.forget, Nexting.forget]
  rw [abortAll_eq] at hdrop ⊢
  refine .going ⟨hsound, h.result, by rw [h.frames]; rfl, h.started, hdrop, .inl ?_⟩
  simp only [hu, if_false]
  exact hlive

theorem act (h : c.Abreast limit s) (hlive : c.status s.holder = .live s.baton) (move : Move) :
    (c.act limit s.holder s.baton move).Follows limit (Relay.step limit s move).turn := by
  cases move with
  | next label => exact h.next label
  | resume depth =>
    cases depth with
    | zero => exact .going h
    | succ depth => exact h.resume depth
  | forget depth => exact h.forget hlive depth
  | add n =>
    have hstep : (Relay.step limit s (.add n)).turn =
        .going { s with baton := (s.baton + n) % 0x10000000000000000 } := rfl
    have hsound := h.sound.step hstep
    rw [hstep]
    exact .going ⟨hsound, h.result, h.frames, h.started, h.arranged.put rfl, .inl (put_status_self ..)⟩
  | giveUp => exact .ended (conclude_result h.result ..) (h.arranged.conclude _)
  | fail detail => exact h.fail _ _
  | failTraced trace => exact h.fail _ _
  | crash => exact h.fail _ _
  | other => exact .going h

end Abreast

namespace Follows

variable {turn : Relay.Turn}

/-- A unit that has the baton is the holder in the relay, or has failed and is about to end the run. -/
theorem of_holds (h : c.Follows limit turn) (hu : (c.status u).holds) :
    (∃ s, turn = .going s ∧ c.Abreast limit s ∧ s.holder = u) ∨
      ∃ d baton, turn = .ended (.failed (d.orTraced (Nexting.labels c.frames)) baton) ∧ c.result = none ∧
        c.Arranged u ∧ c.status u = .failing d baton := by
  cases h with
  | @going s h => exact .inl ⟨s, rfl, h, (h.arranged.eq_of_holds hu).symm⟩
  | failing hresult harranged hfailing =>
    obtain rfl := harranged.eq_of_holds hu
    exact .inr ⟨_, _, rfl, hresult, harranged, hfailing⟩
  | ended hresult hdissolved => exact absurd hu (hdissolved.not_holds u)

theorem of_live {baton : Nat} (h : c.Follows limit turn) (hu : c.status u = .live baton) :
    ∃ s, turn = .going s ∧ c.Abreast limit s ∧ s.holder = u ∧ s.baton = baton := by
  rcases h.of_holds (by rw [hu]; rfl) with ⟨s, hturn, habreast, rfl⟩ | ⟨d, b, -, -, -, hfailing⟩
  · rcases habreast.holder with hh | hh <;> rw [hu] at hh <;> cases hh
    exact ⟨s, hturn, habreast, rfl, rfl⟩
  · rw [hu] at hfailing
    cases hfailing

theorem wake_resumed {baton : Nat} (h : c.Follows limit turn) (hu : c.status u = .parked (some (.resumed baton))) :
    (c.put u (.live baton)).Follows limit turn := by
  rcases h.of_holds (by rw [hu]; rfl) with ⟨s, rfl, h, rfl⟩ | ⟨d, b, -, -, -, hfailing⟩
  · rcases h.holder with hh | hh <;> rw [hu] at hh <;> cases hh
    exact .going ⟨h.sound, h.result, h.frames, h.started, h.arranged.put rfl, .inl (put_status_self ..)⟩
  · rw [hu] at hfailing
    cases hfailing

theorem wake_aborted (h : c.Follows limit turn) (hu : c.status u = .parked (some .aborted)) :
    (c.put u .finished).Follows limit turn := by
  have hne {v : Nat} (hv : (c.status v).holds) : v ≠ u := by
    rintro rfl
    rw [hu] at hv
    cases hv
  cases h with
  | @going s h =>
    refine .going ⟨h.sound, h.result, h.frames, h.started, h.arranged.wake hu, ?_⟩
    rw [put_status_of_ne (hne h.arranged.holds)]
    exact h.holder
  | failing hresult harranged hfailing =>
    exact .failing hresult (harranged.wake hu) ((put_status_of_ne (hne harranged.holds) _).trans hfailing)
  | ended hresult hdissolved => exact .ended hresult (hdissolved.wake hu)

theorem wake {o : Outcome} (h : c.Follows limit turn) (hu : c.status u = .parked (some o)) :
    (c.wake u o).Follows limit turn := by
  cases o with
  | resumed baton => exact h.wake_resumed hu
  | aborted => exact h.wake_aborted hu

theorem fail {d : Diagnostic} {baton : Option Nat} (h : c.Follows limit turn) (hu : c.status u = .failing d baton) :
    (c.conclude u (.failed (d.orTraced (Nexting.labels c.frames)) baton)).Follows limit turn := by
  rcases h.of_holds (by rw [hu]; rfl) with ⟨s, -, h, rfl⟩ | ⟨d, b, rfl, hresult, harranged, hfailing⟩
  · rcases h.holder with hh | hh <;> rw [hu] at hh <;> cases hh
  · rw [hu] at hfailing
    cases hfailing
    exact .ended (conclude_result hresult ..) (harranged.conclude _)

/-- Whichever unit does something next, the relay has done it too. -/
theorem step {s : Relay.State} {moves more : List Move} (h : c.Follows limit (Relay.play limit s moves))
    (hstep : Step limit c more d) : d.Follows limit (Relay.play limit s (moves ++ more)) := by
  cases hstep with
  | act move hlive =>
    obtain ⟨r, hturn, hr, rfl, rfl⟩ := h.of_live hlive
    have hact := hr.act hlive move
    rw [Relay.play_append, hturn]
    simp only [Relay.play]
    cases hnext : (Relay.step limit r move).turn <;> rw [hnext] at hact <;> exact hact
  | wake hmail => rw [List.append_nil]; exact h.wake hmail
  | fail hfailing => rw [List.append_nil]; exact h.fail hfailing

theorem reaches {s : Relay.State} {moves : List Move} (h : c.Follows limit (.going s))
    (hd : Reaches limit c moves d) : d.Follows limit (Relay.play limit s moves) := by
  induction hd with
  | refl => exact h
  | tail hd hstep ih => exact ih.step hstep

theorem unborn (h : c.Follows limit turn) : c.status c.started = .unborn := by
  cases h with
  | going h => exact h.arranged.unborn _ (Nat.le_refl _)
  | failing hresult harranged hfailing => exact harranged.unborn _ (Nat.le_refl _)
  | ended hresult hdissolved => exact hdissolved.unborn _ (Nat.le_refl _)

end Follows

theorem put_spent (hv : (c.status v).spent) {st : Status} (h : v = u → st.spent) :
    ((c.put u st).status v).spent := by
  by_cases hvu : v = u
  · rw [hvu, put_status_self]
    exact h hvu
  · rwa [put_status_of_ne hvu]

theorem abortAll_spent (hv : (c.status v).spent) (frames : List (Frame Nat)) :
    ((c.abortAll frames).status v).spent := by
  rw [abortAll_eq]
  change (if _ then _ else _ : Status).spent
  split
  · exact Status.abort_spent hv
  · exact hv

theorem send?_spent (hv : (c.status v).spent) {o : Outcome} (h : c.send? u o = some d) : (d.status v).spent := by
  unfold send? at h
  split at h
  · next hu =>
    cases h
    refine put_spent hv fun he ↦ ?_
    rw [he, hu] at hv
    cases hv
  · cases h

theorem resume_spent (hv : (c.status v).spent) (hne : v ≠ u) (baton depth : Nat) :
    ((c.resume u baton depth).status v).spent := by
  unfold resume
  split
  · next frame frames hresume =>
    have hleft : (({ c with frames } : Crew).abortAll (c.frames.take (depth - 1))).status v |>.spent :=
      abortAll_spent (c := { c with frames }) hv _
    simp only
    split
    · next sent hsent => exact put_spent (send?_spent hleft hsent) fun he ↦ absurd he hne
    · exact put_spent hleft fun he ↦ absurd he hne
  · exact put_spent hv fun he ↦ absurd he hne

theorem conclude_spent (hv : (c.status v).spent) (u : Nat) (r : Relay.Result) :
    ((c.conclude u r).status v).spent :=
  put_spent (abortAll_spent (c := { c with frames := [], result := c.result.or (some r) }) hv _) fun _ ↦ rfl

theorem act_spent {baton : Nat} (hv : (c.status v).spent) (hunborn : c.status c.started = .unborn)
    (hu : c.status u = .live baton) (move : Move) : ((c.act limit u baton move).status v).spent := by
  have hne : v ≠ u := by
    rintro rfl
    rw [hu] at hv
    cases hv
  have hput (st : Status) : ((c.put u st).status v).spent := put_spent hv fun he ↦ absurd he hne
  cases move with
  | next label =>
    simp only [act, next]
    split
    · refine put_spent (hput _) fun he ↦ ?_
      rw [he, hunborn] at hv
      cases hv
    · exact hput _
  | resume depth =>
    cases depth with
    | zero => exact hv
    | succ depth => exact resume_spent hv hne baton _
  | forget depth => exact abortAll_spent (c := { c with frames := Nexting.forget depth c.frames }) hv _
  | giveUp => exact conclude_spent hv u _
  | other => exact hv
  | _ => exact hput _

theorem Step.spent {more : List Move} (hunborn : c.status c.started = .unborn) (hv : (c.status v).spent)
    (hstep : Step limit c more d) : (d.status v).spent := by
  cases hstep with
  | act move hlive => exact act_spent hv hunborn hlive move
  | @wake u o hmail =>
    cases o with
    | resumed baton =>
      refine put_spent hv fun he ↦ ?_
      rw [he, hmail] at hv
      cases hv
    | aborted => exact put_spent hv fun _ ↦ rfl
  | fail hfailing => exact conclude_spent hv _ _

theorem Reaches.trans {moves more : List Move} {e : Crew} (h : Reaches limit c moves d)
    (h' : Reaches limit d more e) : Reaches limit c (moves ++ more) e := by
  induction h' with
  | refl => rwa [List.append_nil]
  | tail h' hstep ih => rw [← List.append_assoc]; exact ih.tail hstep

theorem Reaches.follows {baton : Nat} {moves : List Move} (h : Reaches limit (start baton) moves c) :
    c.Follows limit (Relay.play limit { baton } moves) :=
  (follows_start limit baton).reaches h

theorem Reaches.spent {baton : Nat} {moves more : List Move} (h : Reaches limit (start baton) moves c)
    (hv : (c.status v).spent) (h' : Reaches limit c more d) : (d.status v).spent := by
  induction h' with
  | refl => exact hv
  | tail h' hstep ih => exact hstep.spent (h.trans h').follows.unborn ih

theorem Reaches.no_move {baton : Nat} {moves more : List Move} {r : Relay.Result}
    (h : Reaches limit (start baton) moves c) (hr : Relay.play limit { baton } moves = .ended r)
    (h' : Reaches limit c more d) : more = [] := by
  induction h' with
  | refl => rfl
  | tail h' hstep ih =>
    rw [ih, List.nil_append]
    cases hstep with
    | act move hlive =>
      obtain ⟨s, hs, -⟩ := (h.trans h').follows.of_live hlive
      rw [Relay.play_append, hr] at hs
      cases hs
    | wake hmail => rfl
    | fail hfailing => rfl

theorem Reaches.play_act {baton b : Nat} {moves : List Move} (h : Reaches limit (start baton) moves c)
    (hu : c.status u = .live b) (move : Move) :
    ∃ s, Relay.play limit { baton } (moves ++ [move]) = (Relay.step limit s move).turn ∧
      c.frames = s.frames ∧ s.holder = u ∧ s.baton = b := by
  obtain ⟨s, hs, habreast, rfl, rfl⟩ := h.follows.of_live hu
  refine ⟨s, ?_, habreast.frames, rfl, rfl⟩
  rw [Relay.play_append, hs]
  simp only [Relay.play]
  cases (Relay.step limit s move).turn <;> rfl

theorem Follows.orderly {turn : Relay.Turn} (h : c.Follows limit turn) (hresult : c.result = none) :
    ∃ u, c.Arranged u := by
  cases h with
  | going h => exact ⟨_, h.arranged⟩
  | failing hresult harranged hfailing => exact ⟨_, harranged⟩
  | ended hended hdissolved => rw [hresult] at hended; cases hended

theorem Follows.dissolved {turn : Relay.Turn} {r : Relay.Result} (h : c.Follows limit turn)
    (hresult : c.result = some r) : c.Dissolved ∧ turn = .ended r := by
  cases h with
  | going h => rw [h.result] at hresult; cases hresult
  | failing hnone harranged hfailing => rw [hnone] at hresult; cases hresult
  | ended hended hdissolved =>
    rw [hresult] at hended
    cases hended
    exact ⟨hdissolved, rfl⟩

theorem Reaches.result {baton : Nat} {moves more : List Move} {r : Relay.Result}
    (h : Reaches limit (start baton) moves c) (hr : c.result = some r) (h' : Reaches limit c more d) :
    d.result = some r := by
  induction h' with
  | refl => exact hr
  | tail h' hstep ih =>
    obtain ⟨hdissolved, -⟩ := (h.trans h').follows.dissolved ih
    cases hstep with
    | @act v b move hlive => exact absurd (by rw [hlive]; rfl) (hdissolved.not_holds v)
    | @wake v o hmail => cases o <;> exact ih
    | @fail v d b hfailing => exact absurd (by rw [hfailing]; rfl) (hdissolved.not_holds v)

theorem act_refused {b : Nat} {move : Move} {f : Fault} (h : move.refusal? limit c.frames.length = some f) :
    c.act limit u b move = c.put u (.failing f.diagnostic (some b)) := by
  cases move with
  | next label =>
    simp only [Relay.Move.refusal?] at h
    split at h
    · cases h
    · next hroom =>
      cases h
      simp only [act, next, Nexting.next, hroom, if_false]
  | resume depth =>
    simp only [Relay.Move.refusal?] at h
    split at h
    · cases h
    · next hdepth =>
      cases h
      cases depth with
      | zero => exact absurd (Nat.zero_le _) hdepth
      | succ depth =>
        have hdrop : c.frames.drop depth = [] := List.drop_eq_nil_of_le (by omega)
        simp only [act, resume, Nexting.resume, Nat.add_sub_cancel, hdrop]
  | _ => cases h

theorem Reaches.refused {baton b : Nat} {moves more : List Move} {move : Move} {f : Fault}
    (h : Reaches limit (start baton) moves c) (hu : c.status u = .live b)
    (hf : move.refusal? limit c.frames.length = some f) (h' : Reaches limit (c.act limit u b move) more d) :
    d.result = none ∧ d.frames = c.frames ∧ d.status u = .failing f.diagnostic (some b) ∨
      d.result = some (.failed (f.diagnostic.orTraced (Nexting.labels c.frames)) (some b)) := by
  have hact := h.tail (.act move hu)
  induction h' with
  | refl =>
    obtain ⟨s, hs, habreast, rfl, rfl⟩ := h.follows.of_live hu
    rw [act_refused hf]
    exact .inl ⟨habreast.result, rfl, put_status_self ..⟩
  | @tail rest more e d h' hstep ih =>
    rcases ih with ⟨hresult, hframes, hfailing⟩ | hresult
    · have hfollows := (hact.trans h').follows
      cases hstep with
      | @act v b' move' hlive =>
        obtain ⟨s, -, habreast, rfl, rfl⟩ := hfollows.of_live hlive
        obtain rfl := habreast.arranged.eq_of_holds (v := u) (by rw [hfailing]; rfl)
        rw [hfailing] at hlive
        cases hlive
      | @wake v o hmail =>
        have hne : u ≠ v := by
          rintro rfl
          rw [hfailing] at hmail
          cases hmail
        cases o <;> exact .inl ⟨hresult, hframes, (put_status_of_ne hne _).trans hfailing⟩
      | @fail v d b' hfailing' =>
        obtain ⟨w, harranged⟩ := hfollows.orderly hresult
        obtain rfl := harranged.eq_of_holds (v := u) (by rw [hfailing]; rfl)
        obtain rfl := harranged.eq_of_holds (v := v) (by rw [hfailing']; rfl)
        rw [hfailing] at hfailing'
        cases hfailing'
        rw [hframes]
        exact .inr (conclude_result hresult ..)
    · exact .inr ((hact.trans h').result hresult (Reaches.refl.tail hstep))

theorem Reaches.resumed {baton b depth : Nat} {moves : List Move} {frame : Frame Nat} {rest : List (Frame Nat)}
    (h : Reaches limit (start baton) moves c) (hu : c.status u = .live b)
    (hresume : Nexting.resume (depth + 1) c.frames = .ok (frame, rest))
    (h' : Reaches limit (c.act limit u b (.resume (depth + 1))) [] d) :
    d.frames = rest ∧ (d.status frame.waiter = .parked (some (.resumed b)) ∨ d.status frame.waiter = .live b) := by
  obtain ⟨s, hs, hframes, rfl, rfl⟩ := h.play_act hu (.resume (depth + 1))
  have hdrop : s.frames.drop depth = frame :: rest := by
    rw [← hframes]
    unfold Nexting.resume at hresume
    split at hresume
    · next f r hr => cases hresume; exact hr
    · cases hresume
  have hfollows := ((h.tail (.act (.resume (depth + 1)) hu)).trans h').follows
  rw [List.append_nil, hs, Relay.step_resume hdrop] at hfollows
  cases hfollows with
  | going habreast => exact ⟨habreast.frames, habreast.holder.symm⟩

theorem Reaches.ends_iff {baton b : Nat} {moves : List Move} (h : Reaches limit (start baton) moves c)
    (hu : c.status u = .live b) (move : Move) :
    move.ends limit c.frames.length ↔
      ∃ d r, Reaches limit (c.act limit u b move) [] d ∧ d.result = some r := by
  obtain ⟨s, hs, hframes, -, -⟩ := h.play_act hu move
  have hact := h.tail (.act move hu)
  rw [hframes, ← Relay.step_ended_iff]
  constructor
  · rintro ⟨r, hr⟩
    have hfollows := hact.follows
    rw [hs, hr] at hfollows
    cases hfollows with
    | failing hresult harranged hfailing => exact ⟨_, _, Reaches.refl.tail (.fail hfailing), conclude_result hresult ..⟩
    | ended hresult hdissolved => exact ⟨_, r, .refl, hresult⟩
  · rintro ⟨d, r, hd, hr⟩
    obtain ⟨-, hturn⟩ := (hact.trans hd).follows.dissolved hr
    rw [List.append_nil, hs] at hturn
    exact ⟨r, hturn⟩

/-- In every state of every run of a crew, in whatever order the mail is opened: the crew stands where the relay
stands; while the run lasts, one unit has the baton and can go on, and the callers of the pending frames are those who
wait, each at one frame; everyone else who was started is spent for good. A resumed caller gets the baton as it was. A
refused move leaves the frames alone until its failure ends the run. The run ends once, by the first move that gives
up, fails or is refused, with the result of the relay; then no frame is pending and nobody waits. -/
theorem single_live_unit (limit baton : Nat) {moves : List Move} {c : Crew}
    (h : Reaches limit (start baton) moves c) :
    (∀ s, Relay.play limit { baton } moves = .going s →
      c.result = none ∧ c.frames = s.frames ∧
        (c.status s.holder = .live s.baton ∨ c.status s.holder = .parked (some (.resumed s.baton)))) ∧
    (c.result = none →
      (∃! u, (c.status u).holds) ∧ ((∃ u b, c.status u = .live b) ∨ ∃ d, Step limit c [] d) ∧
        c.callers.Nodup ∧ ∀ u, c.status u = .parked none ↔ u ∈ c.callers) ∧
    (∀ u < c.started, (c.status u).holds ∨ u ∈ c.callers ∨
      ∀ more d, Reaches limit c more d → (d.status u).spent) ∧
    (∀ u b depth frame rest, c.status u = .live b → Nexting.resume (depth + 1) c.frames = .ok (frame, rest) →
      ∀ d, Reaches limit (c.act limit u b (.resume (depth + 1))) [] d →
        d.frames = rest ∧
          (d.status frame.waiter = .parked (some (.resumed b)) ∨ d.status frame.waiter = .live b)) ∧
    (∀ u b move f, c.status u = .live b → move.refusal? limit c.frames.length = some f →
      ∀ more d, Reaches limit (c.act limit u b move) more d →
        more = [] ∧
          (d.result = none ∧ d.frames = c.frames ∧ d.status u = .failing f.diagnostic (some b) ∨
            d.result = some (.failed (f.diagnostic.orTraced (Nexting.labels c.frames)) (some b)))) ∧
    (∀ u b move, c.status u = .live b →
      (move.ends limit c.frames.length ↔
        ∃ d r, Reaches limit (c.act limit u b move) [] d ∧ d.result = some r)) ∧
    (∀ r, c.result = some r →
      c.frames = [] ∧ (∀ u, ¬(c.status u).holds ∧ c.status u ≠ .parked none) ∧
        (∀ more d, Reaches limit c more d → more = [] ∧ d.result = some r) ∧
        (Relay.run limit { baton } moves).result = r) := by
  refine ⟨fun s hs ↦ ?_, fun hresult ↦ ?_, fun u hu ↦ ?_, ?_, ?_, ?_, fun r hr ↦ ?_⟩
  · have hfollows := h.follows
    rw [hs] at hfollows
    cases hfollows with
    | going habreast => exact ⟨habreast.result, habreast.frames, habreast.holder⟩
  · obtain ⟨u, harranged⟩ := h.follows.orderly hresult
    exact ⟨harranged.existsUnique_holds, harranged.live_or_step.imp_left fun hlive ↦ ⟨u, hlive⟩,
      (List.nodup_cons.mp harranged.distinct).2, fun v ↦ harranged.parked_iff⟩
  · have hspent (hs : (c.status u).spent) : ∀ more d, Reaches limit c more d → (d.status u).spent :=
      fun more d hd ↦ h.spent hs hd
    cases hresult : c.result with
    | none =>
      obtain ⟨v, harranged⟩ := h.follows.orderly hresult
      by_cases hv : u = v
      · exact .inl (hv ▸ harranged.holds)
      · by_cases hmem : u ∈ c.callers
        · exact .inr (.inl hmem)
        · exact .inr (.inr (hspent (harranged.spent u hu hv hmem)))
    | some r =>
      obtain ⟨hdissolved, -⟩ := h.follows.dissolved hresult
      exact .inr (.inr (hspent (hdissolved.spent u hu)))
  · intro u b depth frame rest hu hresume d hd
    exact h.resumed hu hresume hd
  · intro u b move f hu hf more d hd
    obtain ⟨s, hs, hframes, -, -⟩ := h.play_act hu move
    rw [hframes] at hf
    have hended := hs.trans (Relay.step_refused hf)
    rw [← hframes] at hf
    exact ⟨(h.tail (.act move hu)).no_move hended hd, h.refused hu hf hd⟩
  · intro u b move hu
    exact h.ends_iff hu move
  · obtain ⟨hdissolved, hturn⟩ := h.follows.dissolved hr
    refine ⟨hdissolved.frames, fun u ↦ ⟨hdissolved.not_holds u, fun hparked ↦ ?_⟩, fun more d hd ↦ ?_, ?_⟩
    · by_cases hu : u < c.started
      · have hspent := hdissolved.spent u hu
        rw [hparked] at hspent
        cases hspent
      · rw [hdissolved.unborn u (Nat.not_lt.mp hu)] at hparked
        cases hparked
    · exact ⟨h.no_move hturn hd, h.result hr hd⟩
    · rw [Relay.run_result, hturn]

/-- Two runs with the same beginning. In one the caller is resumed, in the other its callee finds no room to next, and
this failure ends the run. -/
theorem single_live_unit_resumed :
    ∃ c d, Reaches 1 (start 7) [.next ⟨10, by decide, by decide⟩, .resume 1] c ∧
      Reaches 1 (start 7) [.next ⟨10, by decide, by decide⟩, .next ⟨20, by decide, by decide⟩] d ∧
      (∃! u, (c.status u).holds) ∧ c.status 0 = .parked (some (.resumed 7)) ∧
      d.result = some (.failed ((Fault.tooDeep 1).diagnostic.orTraced [⟨10, by decide, by decide⟩]) (some 7)) ∧
      d.frames = [] := by
  let first : Crew := (start 7).act 1 0 7 (.next ⟨10, by decide, by decide⟩)
  have hfirst : Reaches 1 (start 7) [.next ⟨10, by decide, by decide⟩] first := Reaches.refl.tail (.act _ rfl)
  have hresumed : Reaches 1 (start 7) [.next ⟨10, by decide, by decide⟩, .resume 1] (first.act 1 1 7 (.resume 1)) :=
    hfirst.tail (.act _ rfl)
  let refused : Crew := first.act 1 1 7 (.next ⟨20, by decide, by decide⟩)
  have hrefused : Reaches 1 (start 7) [.next ⟨10, by decide, by decide⟩, .next ⟨20, by decide, by decide⟩] refused :=
    hfirst.tail (.act _ rfl)
  have hended := hrefused.tail (.fail (u := 1) rfl)
  obtain ⟨-, hgoing, -⟩ := single_live_unit 1 7 hresumed
  obtain ⟨-, -, -, -, -, -, hover⟩ := single_live_unit 1 7 hended
  exact ⟨_, _, hresumed, hended, (hgoing rfl).1, rfl, rfl, (hover _ rfl).1⟩

end Intercal.Crew
