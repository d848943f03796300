import BundlePackaging.Proofs.Reading
import Mathlib.Logic.Function.Iterate

/-!
# Calls for a digest

Asking for the digest of a content takes three steps: look for a stored digest, read the bytes, and
store their digest unless one is stored by then.  Between two steps of a call other calls may take
theirs and files may change, so that several calls can have read different bytes before the first of
them stores a digest.

A step stores something only if it is the last one of a call that has read, and only if nothing is
stored yet; so a call that fails has stored nothing at any time.

## Main definitions

* `DigestCall`, `DigestCall.step` — a call and its steps.

## Main results

* `DigestCall.iterate_next` — a call that nothing comes between is answered as `Content.digest`
  answers.
* `DigestCall.step_cases` — all that a step can do.
* `DigestCall.storage_step_cases` — all that a step can do to what is stored.
-/

namespace BundlePackaging

/-! ### Storing -/

namespace Storage

variable {c x : Content} {d e : Digest} {s : Storage}

theorem record_of_eq_some (h : s.digest? c = some e) : s.record c d = (e, s) := by
  rw [record, h]

theorem record_of_eq_none (h : s.digest? c = none) :
    s.record c d = (d, { s with digest? := fun x => if x = c then some d else s.digest? x }) := by
  rw [record, h]

@[simp] theorem disk_record (s : Storage) (c : Content) (d : Digest) :
    (s.record c d).2.disk = s.disk := by
  unfold record
  split <;> rfl

@[simp] theorem nextId_record (s : Storage) (c : Content) (d : Digest) :
    (s.record c d).2.nextId = s.nextId := by
  unfold record
  split <;> rfl

/-- The answer is the digest that is stored afterwards. -/
theorem digest?_record_self (s : Storage) (c : Content) (d : Digest) :
    (s.record c d).2.digest? c = some (s.record c d).1 := by
  cases h : s.digest? c with
  | some e => rw [record_of_eq_some h, h]
  | none =>
    rw [record_of_eq_none h]
    exact if_pos rfl

theorem digest?_record_of_ne (s : Storage) (d : Digest) (h : x ≠ c) :
    (s.record c d).2.digest? x = s.digest? x := by
  cases hc : s.digest? c with
  | some e => rw [record_of_eq_some hc]
  | none =>
    rw [record_of_eq_none hc]
    exact if_neg h

end Storage

/-! ### Calls -/

/-- How far a call for a digest is. -/
inductive DigestProgress where
  /-- The call has not looked for a stored digest. -/
  | waiting
  /-- None was stored when the call looked. -/
  | missed
  /-- The call has read these bytes. -/
  | read (bytes : List UInt8)
  /-- The call has ended. -/
  | answered (answer : Except FileError Digest)

/-- A call for the digest of a content. -/
structure DigestCall where
  /-- The content. -/
  content : Content
  /-- How far the call is. -/
  progress : DigestProgress := .waiting

namespace DigestCall

variable {call : DigestCall} {s t : Storage} {c x : Content} {d : Digest}

/-- One step of a call: look for a stored digest; read the bytes; store their digest unless one is
stored by then, and answer the one that is stored. -/
def step (call : DigestCall) (s : Storage) : DigestCall × Storage :=
  match call.progress with
  | .waiting =>
    match s.digest? call.content with
    | some d => (⟨call.content, .answered (.ok d)⟩, s)
    | none => (⟨call.content, .missed⟩, s)
  | .missed =>
    match call.content.read s with
    | .error e => (⟨call.content, .answered (.error e)⟩, s)
    | .ok bytes => (⟨call.content, .read bytes⟩, s)
  | .read bytes =>
    let (d, s') := s.record call.content (.ofContent bytes)
    (⟨call.content, .answered (.ok d)⟩, s')
  | .answered _ => (call, s)

/-- All that a step can do. -/
theorem step_cases (call : DigestCall) (s : Storage) :
    (∃ answer, call.progress = .answered answer ∧ call.step s = (call, s)) ∨
    (∃ d, call.progress = .waiting ∧ s.digest? call.content = some d ∧
      call.step s = (⟨call.content, .answered (.ok d)⟩, s)) ∨
    (call.progress = .waiting ∧ s.digest? call.content = none ∧
      call.step s = (⟨call.content, .missed⟩, s)) ∨
    (∃ e, call.progress = .missed ∧ call.content.read s = .error e ∧
      call.step s = (⟨call.content, .answered (.error e)⟩, s)) ∨
    (∃ bytes, call.progress = .missed ∧ call.content.read s = .ok bytes ∧
      call.step s = (⟨call.content, .read bytes⟩, s)) ∨
    ∃ bytes, call.progress = .read bytes ∧ call.step s =
      (⟨call.content, .answered (.ok (s.record call.content (.ofContent bytes)).1)⟩,
        (s.record call.content (.ofContent bytes)).2) := by
  unfold step
  cases hprogress : call.progress with
  | waiting =>
    cases hstored : s.digest? call.content with
    | some d => exact .inr (.inl ⟨d, rfl, rfl, rfl⟩)
    | none => exact .inr (.inr (.inl ⟨rfl, rfl, rfl⟩))
  | missed =>
    cases hread : call.content.read s with
    | error e => exact .inr (.inr (.inr (.inl ⟨e, rfl, rfl, rfl⟩)))
    | ok bytes => exact .inr (.inr (.inr (.inr (.inl ⟨bytes, rfl, rfl, rfl⟩))))
  | read bytes => exact .inr (.inr (.inr (.inr (.inr ⟨bytes, rfl, rfl⟩))))
  | answered answer => exact .inl ⟨answer, rfl, rfl⟩

@[simp] theorem content_step (call : DigestCall) (s : Storage) :
    (call.step s).1.content = call.content := by
  rcases call.step_cases s with
    ⟨_, -, h⟩ | ⟨_, -, -, h⟩ | ⟨-, -, h⟩ | ⟨_, -, -, h⟩ | ⟨_, -, -, h⟩ | ⟨_, -, h⟩ <;> rw [h]

/-- All that a step can do to what is stored: nothing, or store the digest of the bytes that the
call has read, with which it ends. -/
theorem storage_step_cases (call : DigestCall) (s : Storage) :
    (call.step s).2 = s ∨
    ∃ bytes, call.progress = .read bytes ∧ s.digest? call.content = none ∧
      call.step s = (⟨call.content, .answered (.ok (.ofContent bytes))⟩,
        (s.record call.content (.ofContent bytes)).2) := by
  rcases call.step_cases s with
    ⟨_, -, h⟩ | ⟨_, -, -, h⟩ | ⟨-, -, h⟩ | ⟨_, -, -, h⟩ | ⟨_, -, -, h⟩ | ⟨bytes, hread, h⟩
  case inr.inr.inr.inr.inr =>
    rw [h]
    cases hstored : s.digest? call.content with
    | some d => exact .inl (by rw [Storage.record_of_eq_some hstored])
    | none => exact .inr ⟨bytes, hread, rfl, by rw [Storage.record_of_eq_none hstored]⟩
  all_goals exact .inl (by rw [h])

@[simp] theorem disk_step (call : DigestCall) (s : Storage) : (call.step s).2.disk = s.disk := by
  rcases call.storage_step_cases s with h | ⟨bytes, -, -, h⟩
  · rw [h]
  · rw [h, Storage.disk_record]

@[simp] theorem nextId_step (call : DigestCall) (s : Storage) :
    (call.step s).2.nextId = s.nextId := by
  rcases call.storage_step_cases s with h | ⟨bytes, -, -, h⟩
  · rw [h]
  · rw [h, Storage.nextId_record]

/-- A call has nothing to do with what is stored for other contents. -/
theorem digest?_step_of_ne (s : Storage) (h : x ≠ call.content) :
    (call.step s).2.digest? x = s.digest? x := by
  rcases call.storage_step_cases s with hstep | ⟨bytes, -, -, hstep⟩
  · rw [hstep]
  · rw [hstep, Storage.digest?_record_of_ne s _ h]

/-- A call succeeds with the digest that is stored then. -/
theorem of_step_eq_ok (h : (call.step s).1 = ⟨c, .answered (.ok d)⟩) :
    call = ⟨c, .answered (.ok d)⟩ ∨ (call.step s).2.digest? c = some d := by
  obtain ⟨content, progress⟩ := call
  rcases step_cases ⟨content, progress⟩ s with
    ⟨_, rfl, hstep⟩ | ⟨_, -, hstored, hstep⟩ | ⟨-, -, hstep⟩ | ⟨_, -, -, hstep⟩ |
    ⟨_, -, -, hstep⟩ | ⟨bytes, -, hstep⟩ <;> rw [hstep] at h ⊢ <;> cases h
  · exact .inl rfl
  · exact .inr hstored
  · exact .inr (s.digest?_record_self content _)

/-- A call that has read was about to, and read what can be read. -/
theorem of_step_eq_read {bytes : List UInt8} (h : (call.step s).1 = ⟨c, .read bytes⟩) :
    call = ⟨c, .missed⟩ ∧ c.read s = .ok bytes := by
  obtain ⟨content, progress⟩ := call
  rcases step_cases ⟨content, progress⟩ s with
    ⟨_, rfl, hstep⟩ | ⟨_, -, -, hstep⟩ | ⟨-, -, hstep⟩ | ⟨_, -, -, hstep⟩ |
    ⟨_, rfl, hread, hstep⟩ | ⟨_, -, hstep⟩ <;> rw [hstep] at h <;> cases h
  exact ⟨rfl, hread⟩

/-- A call fails when it is about to read and cannot. -/
theorem of_step_eq_error {e : FileError} (h : (call.step s).1 = ⟨c, .answered (.error e)⟩) :
    call = ⟨c, .answered (.error e)⟩ ∨ call = ⟨c, .missed⟩ ∧ c.read s = .error e := by
  obtain ⟨content, progress⟩ := call
  rcases step_cases ⟨content, progress⟩ s with
    ⟨_, rfl, hstep⟩ | ⟨_, -, -, hstep⟩ | ⟨-, -, hstep⟩ | ⟨_, rfl, hread, hstep⟩ |
    ⟨_, -, -, hstep⟩ | ⟨_, -, hstep⟩ <;> rw [hstep] at h <;> cases h
  · exact .inl rfl
  · exact .inr ⟨rfl, hread⟩

/-- What a step does depends on the files and on what is stored for the content of the call. -/
theorem step_congr (hdisk : s.disk = t.disk)
    (hstored : s.digest? call.content = t.digest? call.content) :
    (call.step s).1 = (call.step t).1 ∧
      (call.step s).2.digest? call.content = (call.step t).2.digest? call.content := by
  have hread : call.content.read s = call.content.read t := call.content.read_congr hdisk
  unfold step
  cases call.progress with
  | waiting =>
    simp only [hstored]
    cases t.digest? call.content with
    | some d => exact ⟨rfl, hstored⟩
    | none => exact ⟨rfl, hstored⟩
  | missed =>
    simp only [hread]
    cases call.content.read t with
    | error e => exact ⟨rfl, hstored⟩
    | ok bytes => exact ⟨rfl, hstored⟩
  | read bytes =>
    have hanswer : (s.record call.content (.ofContent bytes)).1 =
        (t.record call.content (.ofContent bytes)).1 := by
      unfold Storage.record
      rw [hstored]
      split <;> rfl
    simp only [hanswer, Storage.digest?_record_self, and_self]
  | answered answer => exact ⟨rfl, hstored⟩

/-! ### Calls by themselves -/

/-- A call and what is stored, after one more step of the call. -/
def next (x : DigestCall × Storage) : DigestCall × Storage := x.1.step x.2

/-- A call whose three steps follow each other is answered as `Content.digest` answers. -/
theorem iterate_next (c : Content) (s : Storage) :
    next^[3] (⟨c, .waiting⟩, s) = (⟨c, .answered (c.digest s).1⟩, (c.digest s).2) := by
  unfold Content.digest
  cases hstored : s.digest? c with
  | some d => simp [next, step, hstored]
  | none =>
    cases hread : c.read s with
    | error e => simp [next, step, hstored, hread]
    | ok bytes => simp [next, step, hstored, hread]

/-! ### Progress -/

/-- How many steps a call needs at most before it is answered. -/
def stepsLeft (call : DigestCall) : ℕ :=
  match call.progress with
  | .waiting => 3
  | .missed => 2
  | .read _ => 1
  | .answered _ => 0

theorem stepsLeft_le_three (call : DigestCall) : call.stepsLeft ≤ 3 := by
  unfold stepsLeft
  split <;> omega

theorem stepsLeft_eq_zero : call.stepsLeft = 0 ↔ ∃ answer, call.progress = .answered answer := by
  unfold stepsLeft
  split <;> simp [*]

theorem stepsLeft_step (call : DigestCall) (s : Storage) :
    (call.step s).1.stepsLeft ≤ call.stepsLeft - 1 := by
  rcases call.step_cases s with
    ⟨_, hp, h⟩ | ⟨_, hp, -, h⟩ | ⟨hp, -, h⟩ | ⟨_, hp, -, h⟩ | ⟨_, hp, -, h⟩ | ⟨_, hp, h⟩ <;>
    rw [h] <;> simp [stepsLeft, hp]

end DigestCall
end BundlePackaging
