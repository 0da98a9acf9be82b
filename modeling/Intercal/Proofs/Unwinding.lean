import Intercal.Proofs.Crew

namespace Intercal

def Event.aborted? : Event → Option Label
  | .aborted label => some label
  | _ => none

namespace Nexting

variable {α : Type} {frames rest : List (Frame α)} {frame : Frame α} {n : Nat}

def abortions (events : List Event) : List Label := events.filterMap Event.aborted?

theorem abortions_append (events more : List Event) : abortions (events ++ more) = abortions events ++ abortions more :=
  List.filterMap_append

theorem abortions_aborts (frames : List (Frame α)) : abortions (aborts frames) = labels frames := by
  induction frames with
  | nil => rfl
  | cons frame frames ih => exact congrArg (frame.label :: ·) ih

theorem abortions_forget (depth : Nat) (frames : List (Frame α)) :
    abortions (forgetEvents depth frames) = labels (frames.take depth) := by
  rw [forgetEvents, abortions_append, abortions_aborts]
  exact List.append_nil _

theorem abortions_resume (depth : Nat) (frames : List (Frame α)) (frame : Frame α) :
    abortions (resumeEvents depth frames frame) = labels (frames.take (depth - 1)) := by
  rw [resumeEvents, abortions_append, abortions_aborts]
  exact List.append_nil _

theorem forget_forget (a b : Nat) (frames : List (Frame α)) : forget b (forget a frames) = forget (a + b) frames :=
  List.drop_drop

theorem forgotten_forget (a b : Nat) (frames : List (Frame α)) :
    forgotten a frames + forgotten b (forget a frames) = forgotten (a + b) frames := by
  rw [forgotten, forgotten, forgotten, forget, List.take_add, List.length_append]

theorem forget_of_lt (h : frames.length < n) : forget n frames = [] := List.drop_eq_nil_of_le (Nat.le_of_lt h)

/-- The frame that is resumed is the one at the given depth, and those below it stay. -/
theorem resume_of_le (hn : 1 ≤ n) (h : n ≤ frames.length) :
    ∃ frame, frames[n - 1]? = some frame ∧ frames.drop (n - 1) = frame :: forget n frames := by
  obtain ⟨m, rfl⟩ := Nat.exists_eq_add_of_le' hn
  exact ⟨frames[m], List.getElem?_eq_getElem h, List.drop_eq_getElem_cons h⟩

theorem resume_eq_ok (h : frames.drop (n - 1) = frame :: rest) : resume n frames = .ok (frame, rest) := by
  rw [resume, h]

theorem resume_forget (h : frames.drop (n - 1) = frame :: rest) :
    resume 1 (forget (n - 1) frames) = .ok (frame, rest) :=
  resume_eq_ok h

theorem resume_of_lt (h : frames.length < n) : resume n frames = .error (.rupture n frames.length) := by
  have hdrop : frames.drop (n - 1) = [] := by
    rw [List.drop_eq_nil_iff]
    omega
  rw [resume, hdrop]

end Nexting

namespace Crew

open Relay (Move)

variable {c : Crew} {u baton n : Nat} {frames rest : List (Frame Nat)} {frame : Frame Nat}

def notices (frames : List (Frame Nat)) : List (Nat × Outcome) := frames.map fun frame ↦ (frame.waiter, .aborted)

/-- The mail that a move on the stack gives rise to, in the order in which it is sent. -/
def mail (baton : Nat) (frames : List (Frame Nat)) : Move → List (Nat × Outcome)
  | .forget depth => notices (frames.take depth)
  | .resume depth =>
    match Nexting.resume depth frames with
    | .ok (frame, _) => notices (frames.take (depth - 1)) ++ [(frame.waiter, .resumed baton)]
    | .error _ => []
  | _ => []

/-- Sends mail. Who is no longer waiting takes no notice. -/
def deliver (c : Crew) (letters : List (Nat × Outcome)) : Crew :=
  letters.foldl (fun c letter ↦ (c.send? letter.1 letter.2).getD c) c

theorem mail_forget_forget (baton a b : Nat) (frames : List (Frame Nat)) :
    mail baton frames (.forget a) ++ mail baton (Nexting.forget a frames) (.forget b) =
      mail baton frames (.forget (a + b)) := by
  rw [mail, mail, mail, List.take_add]
  exact List.map_append.symm

theorem mail_resume (h : Nexting.resume n frames = .ok (frame, rest)) :
    mail baton frames (.resume n) = notices (frames.take (n - 1)) ++ [(frame.waiter, .resumed baton)] := by
  rw [mail, h]

theorem mail_forget_resume (h : frames.drop (n - 1) = frame :: rest) :
    mail baton frames (.forget (n - 1)) ++ mail baton (Nexting.forget (n - 1) frames) (.resume 1) =
      mail baton frames (.resume n) := by
  rw [mail_resume (Nexting.resume_eq_ok h), mail_resume (Nexting.resume_forget h)]
  rfl

theorem deliver_append (c : Crew) (letters more : List (Nat × Outcome)) :
    c.deliver (letters ++ more) = (c.deliver letters).deliver more :=
  List.foldl_append

theorem deliver_notices (c : Crew) (frames : List (Frame Nat)) : c.deliver (notices frames) = c.abortAll frames :=
  List.foldl_map

theorem frames_abortAll (c : Crew) (frames : List (Frame Nat)) : (c.abortAll frames).frames = c.frames := by
  rw [abortAll_eq]

theorem abortAll_withFrames (c : Crew) (dropped frames : List (Frame Nat)) :
    { c.abortAll dropped with frames := frames } = { c with frames := frames }.abortAll dropped := by
  rw [abortAll_eq, abortAll_eq]

theorem frames_forget (c : Crew) (depth : Nat) : (c.forget depth).frames = Nexting.forget depth c.frames :=
  frames_abortAll ..

theorem result_forget (c : Crew) (depth : Nat) : (c.forget depth).result = c.result := by
  rw [forget, abortAll_eq]

theorem status_forget (h : c.Arranged u) (depth : Nat) : (c.forget depth).status u = c.status u := by
  have hu : u ∉ (c.frames.take depth).map (·.waiter) := by
    intro hmem
    apply h.not_mem
    rw [List.map_take] at hmem
    exact List.mem_of_mem_take hmem
  rw [forget, abortAll_eq]
  exact if_neg hu

theorem forget_eq_deliver (c : Crew) (baton depth : Nat) :
    c.forget depth =
      { c with frames := Nexting.forget depth c.frames }.deliver (mail baton c.frames (.forget depth)) := by
  rw [mail, deliver_notices]
  rfl

theorem forget_forget (c : Crew) (a b : Nat) : (c.forget a).forget b = c.forget (a + b) := by
  have hsplit (d : Crew) : d.abortAll (c.frames.take (a + b)) =
      (d.abortAll (c.frames.take a)).abortAll ((c.frames.drop a).take b) := by
    rw [List.take_add]
    exact List.foldl_append
  have hframes := frames_forget c a
  rw [forget, hframes, Nexting.forget_forget, forget, abortAll_withFrames, forget, hsplit]
  rfl

/-- Where everybody waits as arranged, the mail is all that the callers hear. -/
theorem resume_eq_deliver (hc : c.Arranged u) (h : c.frames.drop (n - 1) = frame :: rest) :
    c.resume u baton n = ({ c with frames := rest }.deliver (mail baton c.frames (.resume n))).put u .finished := by
  have hresume := Nexting.resume_eq_ok h
  have hsplit : c.frames = c.frames.take (n - 1) ++ frame :: rest := by rw [← h, List.take_append_drop]
  let left := ({ c with frames := rest } : Crew).abortAll (c.frames.take (n - 1))
  have hwaits : left.status frame.waiter = .parked none := by
    have hparked := (hc.drop hsplit).waiting frame.waiter (by rw [callers, frames_abortAll]; exact List.mem_cons_self)
    rw [abortAll_eq] at hparked
    dsimp only [left]
    rw [abortAll_eq]
    exact hparked
  have hsent : left.send? frame.waiter (.resumed baton) =
      some (left.put frame.waiter (.parked (some (.resumed baton)))) :=
    send?_of_parked hwaits _
  have hdeliver : ({ c with frames := rest } : Crew).deliver (mail baton c.frames (.resume n)) =
      left.put frame.waiter (.parked (some (.resumed baton))) := by
    rw [mail_resume hresume, deliver_append, deliver_notices]
    exact congrArg (Option.getD · left) hsent
  rw [hdeliver, resume, hresume]
  dsimp only
  rw [hsent]

theorem resume_forget (u baton : Nat) (h : c.frames.drop (n - 1) = frame :: rest) :
    (c.forget (n - 1)).resume u baton 1 = c.resume u baton n := by
  have hleft : ({ c.forget (n - 1) with frames := rest } : Crew).abortAll [] =
      { c with frames := rest }.abortAll (c.frames.take (n - 1)) := abortAll_withFrames ..
  rw [resume, frames_forget, Nexting.resume_forget h, resume, Nexting.resume_eq_ok h]
  dsimp only
  rw [Nat.sub_self, List.take_zero, hleft]

theorem frames_resume (u baton : Nat) (h : Nexting.resume n c.frames = .ok (frame, rest)) :
    (c.resume u baton n).frames = rest := by
  rw [resume, h]
  dsimp only
  split
  · next sent hsent =>
    unfold send? at hsent
    split at hsent <;> cases hsent
    exact frames_abortAll ..
  · exact frames_abortAll ..

/-- A rupture is felt by nobody but the unit that caused it. -/
theorem resume_of_lt (u baton : Nat) (h : c.frames.length < n) :
    c.resume u baton n = c.put u (.failing (Fault.rupture n c.frames.length).diagnostic (some baton)) := by
  rw [resume, Nexting.resume_of_lt h]

theorem frames_next {limit : Nat} (u baton : Nat) (label : Label) (h : c.frames.length < limit) :
    (c.next limit u baton label).frames = ⟨label, u⟩ :: c.frames := by
  simp only [next, Nexting.next, h, if_true]

end Crew

namespace Nexting

open Crew (mail)

/-- To forget twice comes to the same as to forget the sum, as far as there are frames. To resume within the height of
the stack is to forget the frames above and to resume the top; beyond it, to resume fails and leaves everything pending,
while to forget empties the stack. A frame that is resumed by its own unit leaves the stack as it was. -/
theorem unwinding_laws :
    (∀ (α : Type) (frames : List (Frame α)),
      (∀ a b, forget b (forget a frames) = forget (a + b) frames ∧
        abortions (forgetEvents a frames ++ forgetEvents b (forget a frames)) =
          abortions (forgetEvents (a + b) frames) ∧
        forgotten a frames + forgotten b (forget a frames) = forgotten (a + b) frames ∧
        forgotten (a + b) frames = min (a + b) frames.length) ∧
      (∀ n, 1 ≤ n → n ≤ frames.length → ∃ frame, frames[n - 1]? = some frame ∧
        resume n frames = .ok (frame, forget n frames) ∧
        resume 1 (forget (n - 1) frames) = .ok (frame, forget n frames) ∧
        abortions (forgetEvents (n - 1) frames ++ resumeEvents 1 (forget (n - 1) frames) frame) =
          abortions (resumeEvents n frames frame)) ∧
      (∀ n, frames.length < n → (∃ f, resume n frames = .error f ∧ f.code = .e632) ∧ forget n frames = []) ∧
      ∀ limit frame, frames.length < limit →
        next limit frame frames = .ok (frame :: frames) ∧ resume 1 (frame :: frames) = .ok (frame, frames)) ∧
    ∀ (c : Crew) (u baton : Nat), c.Arranged u →
      (∀ a b, (c.forget a).forget b = c.forget (a + b) ∧
        c.forget a = { c with frames := forget a c.frames }.deliver (mail baton c.frames (.forget a)) ∧
        mail baton c.frames (.forget a) ++ mail baton (c.forget a).frames (.forget b) =
          mail baton c.frames (.forget (a + b))) ∧
      (∀ n, 1 ≤ n → n ≤ c.frames.length → (c.forget (n - 1)).resume u baton 1 = c.resume u baton n ∧
        c.resume u baton n =
          ({ c with frames := forget n c.frames }.deliver (mail baton c.frames (.resume n))).put u .finished ∧
        mail baton c.frames (.forget (n - 1)) ++ mail baton (c.forget (n - 1)).frames (.resume 1) =
          mail baton c.frames (.resume n)) ∧
      (∀ n, c.frames.length < n → (c.resume u baton n).frames = c.frames ∧
        (∃ d, (c.resume u baton n).status u = .failing d (some baton) ∧ d.code = .e632) ∧
        (∀ v, v ≠ u → (c.resume u baton n).status v = c.status v) ∧
        (c.forget n).frames = [] ∧ (c.forget n).status u = c.status u ∧ (c.forget n).result = c.result) ∧
      ∀ limit label, c.frames.length < limit →
        ((c.next limit u baton label).resume c.started baton 1).frames = c.frames ∧
          mail baton (c.next limit u baton label).frames (.resume 1) = [(u, .resumed baton)] := by
  constructor
  · intro α frames
    refine ⟨fun a b ↦ ⟨forget_forget a b frames, ?_, forgotten_forget a b frames, List.length_take⟩, ?_, ?_, ?_⟩
    · rw [abortions_append, abortions_forget, abortions_forget, abortions_forget, List.take_add]
      exact List.map_append.symm
    · intro n hn hle
      obtain ⟨frame, hframe, hdrop⟩ := resume_of_le hn hle
      refine ⟨frame, hframe, resume_eq_ok hdrop, resume_forget hdrop, ?_⟩
      rw [abortions_append, abortions_forget, abortions_resume, abortions_resume]
      exact List.append_nil _
    · intro n hlt
      exact ⟨⟨_, resume_of_lt hlt, rfl⟩, forget_of_lt hlt⟩
    · intro limit frame hlt
      exact ⟨if_pos hlt, rfl⟩
  · intro c u baton hc
    refine ⟨fun a b ↦ ⟨c.forget_forget a b, c.forget_eq_deliver baton a, ?_⟩, ?_, ?_, ?_⟩
    · rw [Crew.frames_forget]
      exact Crew.mail_forget_forget baton a b c.frames
    · intro n hn hle
      obtain ⟨frame, -, hdrop⟩ := resume_of_le hn hle
      refine ⟨Crew.resume_forget u baton hdrop, Crew.resume_eq_deliver hc hdrop, ?_⟩
      rw [Crew.frames_forget]
      exact Crew.mail_forget_resume hdrop
    · intro n hlt
      rw [Crew.resume_of_lt u baton hlt, Crew.frames_forget, forget_of_lt hlt]
      refine ⟨rfl, ⟨_, Crew.put_status_self .., rfl⟩, fun v hv ↦ Crew.put_status_of_ne hv _, rfl, ?_, ?_⟩
      · exact Crew.status_forget hc n
      · exact c.result_forget n
    · intro limit label hlt
      have hresume : resume 1 (c.next limit u baton label).frames = .ok (⟨label, u⟩, c.frames) := by
        rw [Crew.frames_next u baton label hlt]
        rfl
      refine ⟨Crew.frames_resume c.started baton hresume, ?_⟩
      rw [Crew.mail_resume hresume]
      rfl

def tower : Crew := ((Crew.start 7).next 80 0 7 ⟨100, by decide, by decide⟩).next 80 1 7 ⟨200, by decide, by decide⟩

theorem unwinding_laws_tower :
    tower.Arranged 2 ∧ tower.frames.length = 2 ∧
      (∃ frame, resume 2 tower.frames = .ok (frame, []) ∧ resume 1 (forget 1 tower.frames) = .ok (frame, [])) ∧
      (tower.forget 1).resume 2 7 1 = tower.resume 2 7 2 ∧
      mail 7 tower.frames (.forget 1) ++ mail 7 (tower.forget 1).frames (.resume 1) = [(1, .aborted), (0, .resumed 7)] ∧
      (∃ f, resume 3 tower.frames = .error f ∧ f.code = .e632) ∧
      (tower.resume 2 7 3).frames = tower.frames ∧ (tower.forget 3).frames = [] ∧
      ((tower.next 80 2 7 ⟨300, by decide, by decide⟩).resume 3 7 1).frames = tower.frames := by
  have harranged : tower.Arranged 2 := ((Crew.arranged_start 7).next _ 7).next _ 7
  obtain ⟨hstack, hcrew⟩ := unwinding_laws
  obtain ⟨-, hresume, hrupture, -⟩ := hstack Nat tower.frames
  obtain ⟨-, hresumes, hruptures, hnext⟩ := hcrew tower 2 7 harranged
  obtain ⟨frame, -, htwo, hone, -⟩ := hresume 2 (by decide) (by decide)
  obtain ⟨hsame, -, hmail⟩ := hresumes 2 (by decide) (by decide)
  obtain ⟨hpending, -, -, hempty, -⟩ := hruptures 3 (by decide)
  exact ⟨harranged, rfl, ⟨frame, htwo, hone⟩, hsame, hmail, (hrupture 3 (by decide)).1, hpending, hempty,
    (hnext 80 _ (by decide)).1⟩

end Nexting

end Intercal
