import BundlePackaging.Proofs.DigestCalls
import Mathlib.Data.List.Induction

/-!
# Histories of handles

Handles to files are made and copied, files are written and deleted, and sizes, bytes and digests
are asked for, in any order; calls for a digest take their steps one at a time, with anything in
between.  The disk is any disk, so a name may lead to a file through any directories; and at any time
it may become any other disk, whether directories are moved, permissions withdrawn or files written
in part.

The invariant says where everything comes from: what is stored for a handle is the digest of bytes
that one call has read, and this call has ended with it.  What is stored is never replaced, so all
calls that succeed have the same answer.  A call that does not succeed has stored nothing, and
neither has a call on another handle; so their steps can be left out of a history, and nobody else
notices.

## Main definitions

* `HandleAct`, `HandleSession`, `HandleSession.step` — what can happen, and what it does.
* `HandleSession.after` — the handles, calls and files after a history.
* `HandleSession.HasRead` — what a call has read in a history.
* `HandleSession.Sound` — the invariant.
* `HandleSession.quiet` — a history without the steps of some calls.
* `HandleSession.AlikeAt` — two sessions that nobody can tell apart who uses one handle.

## Main results

* `HandleSession.sound` — every history keeps the invariant.
* `HandleSession.exists_answered_of_readable` — a call succeeds if the file is readable.
* `HandleSession.alikeAt_quiet` — steps that are left out are not noticed.
* `HandleSession.handles_over_history` — **what sizes, bytes and digests are over any history.**
-/

namespace BundlePackaging

/-! ### Sessions -/

/-- What can happen while handles are used.  Handles and calls are named by their positions. -/
inductive HandleAct where
  /-- A file is written. -/
  | write (name : String) (bytes : List UInt8)
  /-- A file is deleted. -/
  | delete (name : String)
  /-- Anything happens to the files and to where names lead. -/
  | change (disk : Disk)
  /-- A handle to a file is made. -/
  | openFile (name : String)
  /-- A handle is copied. -/
  | copy (i : ℕ)
  /-- The size of a handle is asked for. -/
  | size (i : ℕ)
  /-- The bytes of a handle are asked for. -/
  | read (i : ℕ)
  /-- A call for the digest of a handle begins. -/
  | askDigest (i : ℕ)
  /-- A call for a digest takes a step. -/
  | advance (k : ℕ)

namespace HandleAct

/-- Whether something is a step of one of some calls. -/
def isStepOf (calls : ℕ → Bool) : HandleAct → Bool
  | advance k => calls k
  | _ => false

/-- Whether something can change the files. -/
def changesFiles : HandleAct → Bool
  | write .. | delete _ | change _ => true
  | _ => false

instance (act : HandleAct) (k : ℕ) : Decidable (act = .advance k) :=
  decidable_of_iff (act.isStepOf (· = k)) (by cases act <;> simp [isStepOf])

end HandleAct

/-- What is answered at once. -/
inductive HandleAnswer where
  /-- A number of bytes. -/
  | size (n : ℕ)
  /-- Bytes, or why there are none. -/
  | bytes (outcome : Except FileError (List UInt8))

/-- Handles and calls for their digests, with the files. -/
structure HandleSession where
  /-- The files and the stored digests. -/
  storage : Storage
  /-- The handles, in the order in which they were made or copied. -/
  handles : List Content := []
  /-- The calls, in the order in which they began. -/
  calls : List DigestCall := []

namespace HandleSession

/-- The session before any handle is made. -/
def start (files : Disk) : HandleSession := { storage := { disk := files } }

/-- The session with other files. -/
def withDisk (s : HandleSession) (disk : Disk) : HandleSession :=
  { s with storage := { s.storage with disk } }

/-- The session after something happened.  What fails changes nothing, and neither does what names
a handle or a call that there is not. -/
def step (s : HandleSession) : HandleAct → HandleSession
  | .write name bytes =>
    s.withDisk ((s.storage.disk.write name bytes).toOption.getD s.storage.disk)
  | .delete name => s.withDisk ((s.storage.disk.delete name).toOption.getD s.storage.disk)
  | .change disk => s.withDisk disk
  | .openFile name =>
    match s.storage.openFile name with
    | .ok (c, storage) => { s with storage, handles := s.handles ++ [c] }
    | .error _ => s
  | .copy i => { s with handles := s.handles ++ s.handles[i]?.toList }
  | .size _ => s
  | .read _ => s
  | .askDigest i =>
    { s with calls := s.calls ++ (s.handles[i]?.map fun c => ⟨c, .waiting⟩).toList }
  | .advance k =>
    match s.calls[k]? with
    | some call =>
      ⟨(call.step s.storage).2, s.handles, s.calls.set k (call.step s.storage).1⟩
    | none => s

/-- What is answered at once. -/
def answer? (s : HandleSession) : HandleAct → Option HandleAnswer
  | .size i => s.handles[i]?.map fun c => .size c.size
  | .read i => s.handles[i]?.map fun c => .bytes (c.read s.storage)
  | _ => none

/-- The session after all that happened. -/
def run (s : HandleSession) (acts : List HandleAct) : HandleSession := acts.foldl step s

/-- The session after a history that began with the given files. -/
def after (files : Disk) (history : List HandleAct) : HandleSession := (start files).run history

/-- Call `k` for the digest of `c` has ended with this answer. -/
def Answered (s : HandleSession) (k : ℕ) (c : Content) (answer : Except FileError Digest) : Prop :=
  s.calls[k]? = some ⟨c, .answered answer⟩

/-- Call `k` for the digest of `c` has tried to read in the history, with this outcome. -/
def HasRead (files : Disk) (history : List HandleAct) (k : ℕ) (c : Content)
    (outcome : Except FileError (List UInt8)) : Prop :=
  ∃ before rest, history = before ++ .advance k :: rest ∧
    (after files before).calls[k]? = some ⟨c, .missed⟩ ∧
    c.read (after files before).storage = outcome

variable {s q : HandleSession} {act : HandleAct} {files : Disk} {history : List HandleAct}
  {i k : ℕ} {call : DigestCall} {c : Content} {d : Digest}

theorem after_concat (files : Disk) (history : List HandleAct) (act : HandleAct) :
    after files (history ++ [act]) = (after files history).step act := by
  unfold after run
  rw [List.foldl_append]
  rfl

theorem HasRead.concat {outcome : Except FileError (List UInt8)}
    (h : HasRead files history k c outcome) (act : HandleAct) :
    HasRead files (history ++ [act]) k c outcome := by
  obtain ⟨before, rest, rfl, hcall, hread⟩ := h
  exact ⟨before, rest ++ [act], by simp, hcall, hread⟩

/-! ### One step -/

theorem step_advance (h : s.calls[k]? = some call) :
    s.step (.advance k) =
      ⟨(call.step s.storage).2, s.handles, s.calls.set k (call.step s.storage).1⟩ := by
  simp only [step, h]

theorem step_advance_of_none (h : s.calls[k]? = none) : s.step (.advance k) = s := by
  simp only [step, h]

/-- Only steps of calls store digests and bring calls further; at most a call begins otherwise. -/
theorem step_cases (s : HandleSession) (act : HandleAct) :
    (∃ k call, act = .advance k ∧ s.calls[k]? = some call) ∨
    ((∀ k, act = .advance k → s.calls[k]? = none) ∧
      (s.step act).storage.digest? = s.storage.digest? ∧
      ∃ begun, (s.step act).calls = s.calls ++ begun ∧ ∀ call ∈ begun, call.progress = .waiting) := by
  cases act with
  | advance k =>
    cases hcall : s.calls[k]? with
    | some call => exact .inl ⟨k, call, rfl, hcall⟩
    | none =>
      refine .inr ⟨?_, ?_, [], ?_, by simp⟩
      · rintro _ ⟨⟩
        exact hcall
      · rw [step_advance_of_none hcall]
      · rw [step_advance_of_none hcall, List.append_nil]
  | askDigest i =>
    refine .inr ⟨by simp, rfl, _, rfl, ?_⟩
    intro call hcall
    cases hi : s.handles[i]? with
    | none => simp [hi] at hcall
    | some c =>
      rw [hi] at hcall
      obtain rfl := List.mem_singleton.1 hcall
      rfl
  | openFile name =>
    refine .inr ⟨by simp, ?_, [], ?_, by simp⟩ <;>
      simp only [step, Storage.openFile] <;>
      cases s.storage.disk.size name <;> simp
  | write | delete | change | copy | size | read =>
    exact .inr ⟨by simp, rfl, [], (List.append_nil _).symm, by simp⟩

/-- A call comes further by its own steps only. -/
theorem getElem?_calls_step (h : s.calls[k]? = some call) (act : HandleAct) :
    (s.step act).calls[k]? =
      some (if act = .advance k then (call.step s.storage).1 else call) := by
  have hlt : k < s.calls.length := (List.getElem?_eq_some_iff.1 h).1
  rcases s.step_cases act with ⟨j, other, rfl, hother⟩ | ⟨hact, -, begun, hcalls, -⟩
  · rw [step_advance hother]
    by_cases hjk : j = k
    · subst hjk
      obtain rfl := Option.some.inj (h.symm.trans hother)
      rw [if_pos rfl, List.getElem?_set_self hlt]
    · rw [if_neg (by simpa using hjk), List.getElem?_set_ne hjk, h]
  · rw [hcalls, List.getElem?_append_left hlt, h, if_neg]
    rintro rfl
    rw [hact k rfl] at h
    cases h

/-- Where a call comes from: it has begun just now, or it was there and took a step or none. -/
theorem calls_step_cases (h : (s.step act).calls[k]? = some call) :
    s.calls[k]? = none ∧ call.progress = .waiting ∨ s.calls[k]? = some call ∨
    ∃ last, act = .advance k ∧ s.calls[k]? = some last ∧ call = (last.step s.storage).1 := by
  cases hlast : s.calls[k]? with
  | some last =>
    rw [getElem?_calls_step hlast, Option.some.injEq] at h
    split at h
    · next hact => exact .inr (.inr ⟨last, hact, rfl, h.symm⟩)
    · exact .inr (.inl (congrArg some h))
  | none =>
    refine .inl ⟨rfl, ?_⟩
    have hle : s.calls.length ≤ k := List.getElem?_eq_none_iff.1 hlast
    rcases s.step_cases act with ⟨j, other, rfl, hother⟩ | ⟨-, -, begun, hcalls, hwaiting⟩
    · have hset : (s.step (.advance j)).calls.length ≤ k := by
        rw [step_advance hother, List.length_set]
        exact hle
      rw [List.getElem?_eq_none_iff.2 hset] at h
      cases h
    · rw [hcalls, List.getElem?_append_right hle] at h
      exact hwaiting call (List.mem_of_getElem? h)

/-- All that can happen to what is stored for a handle: nothing, or a call that has read stores the
digest of what it has read, and ends with it. -/
theorem digest?_step (s : HandleSession) (act : HandleAct) (c : Content) :
    (s.step act).storage.digest? c = s.storage.digest? c ∨
    ∃ k bytes, act = .advance k ∧ s.calls[k]? = some ⟨c, .read bytes⟩ ∧
      s.storage.digest? c = none ∧
      (s.step act).storage.digest? c = some (.ofContent bytes) ∧
      (s.step act).Answered k c (.ok (.ofContent bytes)) := by
  rcases s.step_cases act with ⟨k, ⟨content, progress⟩, rfl, hcall⟩ | ⟨-, hstored, -⟩
  · have hanswer := getElem?_calls_step hcall (.advance k)
    rw [if_pos rfl] at hanswer
    rw [step_advance hcall]
    by_cases hc : c = content
    · subst hc
      rcases DigestCall.storage_step_cases ⟨c, progress⟩ s.storage with
        hstep | ⟨bytes, hread, hnone, hstep⟩
      · exact .inl (by rw [hstep])
      · obtain rfl : progress = .read bytes := hread
        rw [step_advance hcall] at hanswer
        rw [hstep] at hanswer ⊢
        refine .inr ⟨k, bytes, rfl, hcall, hnone, ?_, hanswer⟩
        rw [Storage.digest?_record_self, Storage.record_of_eq_none hnone]
    · exact .inl (DigestCall.digest?_step_of_ne _ hc)
  · exact .inl (by rw [hstored])

/-- What is stored is never replaced. -/
theorem digest?_step_of_eq_some (h : s.storage.digest? c = some d) (act : HandleAct) :
    (s.step act).storage.digest? c = some d := by
  rcases s.digest?_step act c with heq | ⟨k, bytes, -, -, hnone, -⟩
  · rwa [heq]
  · rw [h] at hnone
    cases hnone

/-- A call that has ended stays as it is. -/
theorem Answered.step {answer : Except FileError Digest} (h : s.Answered k c answer)
    (act : HandleAct) : (s.step act).Answered k c answer := by
  unfold Answered
  rw [getElem?_calls_step h act]
  split <;> rfl

/-! ### The invariant -/

/-- What is stored was stored by a call that has read and has ended with it; calls that succeed
answer what is stored; and what calls have read, or failed to read, they have tried to read. -/
structure Sound (files : Disk) (history : List HandleAct) : Prop where
  /-- What is stored was read by a call that has ended with it. -/
  stored {c : Content} {d : Digest} : (after files history).storage.digest? c = some d →
    ∃ k bytes, (after files history).Answered k c (.ok d) ∧
      HasRead files history k c (.ok bytes) ∧ d = .ofContent bytes
  /-- Calls that succeed answer what is stored. -/
  agree {k : ℕ} {c : Content} {d : Digest} : (after files history).Answered k c (.ok d) →
    (after files history).storage.digest? c = some d
  /-- Bytes that a call is about to store were read by it. -/
  read {k : ℕ} {c : Content} {bytes : List UInt8} :
    (after files history).calls[k]? = some ⟨c, .read bytes⟩ →
      HasRead files history k c (.ok bytes)
  /-- A call that has failed could not read. -/
  failed {k : ℕ} {c : Content} {e : FileError} : (after files history).Answered k c (.error e) →
    HasRead files history k c (.error e)

theorem sound_nil (files : Disk) : Sound files [] where
  stored h := by cases h
  agree h := by cases h
  read h := by cases h
  failed h := by cases h

/-- Whatever happens next keeps the invariant. -/
theorem Sound.concat (h : Sound files history) (act : HandleAct) :
    Sound files (history ++ [act]) := by
  have hnow {k : ℕ} {c : Content} (hmissed : (after files history).calls[k]? = some ⟨c, .missed⟩) :
      HasRead files (history ++ [.advance k]) k c (c.read (after files history).storage) :=
    ⟨history, [], rfl, hmissed, rfl⟩
  refine ⟨?_, ?_, ?_, ?_⟩
  · intro c d hd
    rw [after_concat] at hd ⊢
    rcases (after files history).digest?_step act c with
      heq | ⟨k, bytes, -, hcall, -, hnew, hanswered⟩
    · rw [heq] at hd
      obtain ⟨k, bytes, hanswered, hread, rfl⟩ := h.stored hd
      exact ⟨k, bytes, hanswered.step act, hread.concat act, rfl⟩
    · rw [hnew] at hd
      cases hd
      exact ⟨k, bytes, hanswered, (h.read hcall).concat act, rfl⟩
  · intro k c d hanswered
    rw [after_concat] at hanswered ⊢
    rcases calls_step_cases hanswered with ⟨-, hwaiting⟩ | hcall | ⟨last, rfl, hlast, hstep⟩
    · cases hwaiting
    · exact digest?_step_of_eq_some (h.agree hcall) act
    · rcases DigestCall.of_step_eq_ok hstep.symm with rfl | hstored
      · exact digest?_step_of_eq_some (h.agree hlast) _
      · rw [step_advance hlast]
        exact hstored
  · intro k c bytes hcall
    rw [after_concat] at hcall
    rcases calls_step_cases hcall with ⟨-, hwaiting⟩ | hcall | ⟨last, rfl, hlast, hstep⟩
    · cases hwaiting
    · exact (h.read hcall).concat act
    · obtain ⟨rfl, hread⟩ := DigestCall.of_step_eq_read hstep.symm
      exact hread ▸ hnow hlast
  · intro k c e hanswered
    rw [after_concat] at hanswered
    rcases calls_step_cases hanswered with ⟨-, hwaiting⟩ | hcall | ⟨last, rfl, hlast, hstep⟩
    · cases hwaiting
    · exact (h.failed hcall).concat act
    · rcases DigestCall.of_step_eq_error hstep.symm with rfl | ⟨rfl, hread⟩
      · exact (h.failed hlast).concat _
      · exact hread ▸ hnow hlast

/-- Every history keeps the invariant. -/
theorem sound (files : Disk) (history : List HandleAct) : Sound files history := by
  induction history using List.reverseRecOn with
  | nil => exact sound_nil files
  | append_singleton history act ih => exact ih.concat act

/-! ### Where handles come from -/

theorem nextId_le_step (s : HandleSession) (act : HandleAct) :
    s.storage.nextId ≤ (s.step act).storage.nextId := by
  cases act with
  | openFile name =>
    simp only [step, Storage.openFile]
    cases s.storage.disk.size name <;> simp
  | advance k =>
    cases hcall : s.calls[k]? with
    | some call => rw [step_advance hcall, DigestCall.nextId_step]
    | none => rw [step_advance_of_none hcall]
  | _ => exact Nat.le_refl _

/-- A handle that is there was there before, as itself or as what was copied, or was made just
now with the next number. -/
theorem mem_handles_step (h : c ∈ (s.step act).handles) :
    c ∈ s.handles ∨ ∃ name size, act = .openFile name ∧ s.storage.disk.size name = .ok size ∧
      c = ⟨s.storage.nextId, .file name size⟩ ∧
      (s.step act).storage.nextId = s.storage.nextId + 1 := by
  cases act with
  | openFile name =>
    simp only [step, Storage.openFile] at h ⊢
    cases hsize : s.storage.disk.size name with
    | error e =>
      rw [hsize] at h
      exact .inl h
    | ok size =>
      rw [hsize] at h
      rcases List.mem_append.1 h with h | h
      · exact .inl h
      · exact .inr ⟨name, size, rfl, hsize, List.mem_singleton.1 h, rfl⟩
  | copy i =>
    rcases List.mem_append.1 h with h | h
    · exact .inl h
    · exact .inl (List.mem_of_getElem? (Option.mem_toList.1 h))
  | advance k =>
    cases hcall : s.calls[k]? with
    | some call =>
      rw [step_advance hcall] at h
      exact .inl h
    | none =>
      rw [step_advance_of_none hcall] at h
      exact .inl h
  | _ => exact .inl h

theorem id_lt_nextId (h : c ∈ (after files history).handles) :
    c.id < (after files history).storage.nextId := by
  induction history using List.reverseRecOn with
  | nil => cases h
  | append_singleton history act ih =>
    rw [after_concat] at h ⊢
    rcases mem_handles_step h with hmem | ⟨name, size, -, -, rfl, hnext⟩
    · exact Nat.lt_of_lt_of_le (ih hmem) (nextId_le_step _ act)
    · rw [hnext]
      exact Nat.lt_succ_self _

/-- Every handle was made at some time in the history, with the size that the file had then, and is
none of those that were there before. -/
theorem exists_openFile_of_mem_handles (h : c ∈ (after files history).handles) :
    ∃ before rest name size, history = before ++ .openFile name :: rest ∧
      c.source = .file name size ∧ (after files before).storage.disk.size name = .ok size ∧
      c ∉ (after files before).handles := by
  induction history using List.reverseRecOn with
  | nil => cases h
  | append_singleton history act ih =>
    rw [after_concat] at h
    rcases mem_handles_step h with hmem | ⟨name, size, rfl, hsize, rfl, -⟩
    · obtain ⟨before, rest, name, size, rfl, hmade⟩ := ih hmem
      exact ⟨before, rest ++ [act], name, size, by simp, hmade⟩
    · refine ⟨history, [], name, size, rfl, rfl, hsize, ?_⟩
      intro hmem
      exact Nat.lt_irrefl _ (id_lt_nextId hmem)

/-! ### After a success -/

/-- Calls from number `n` on that ask for the digest of `c` have not begun or have succeeded
with `d`, which is stored. -/
structure Settled (n : ℕ) (c : Content) (d : Digest) (s : HandleSession) : Prop where
  /-- The digest is stored. -/
  stored : s.storage.digest? c = some d
  /-- No call has failed or goes to the file. -/
  calls {k : ℕ} {p : DigestProgress} : n ≤ k → s.calls[k]? = some ⟨c, p⟩ →
    p = .waiting ∨ p = .answered (.ok d)

theorem Settled.step {n : ℕ} (h : Settled n c d s) (act : HandleAct) :
    Settled n c d (s.step act) := by
  refine ⟨digest?_step_of_eq_some h.stored act, ?_⟩
  intro k p hk hcall
  rcases calls_step_cases hcall with ⟨-, hwaiting⟩ | hcall | ⟨⟨content, q⟩, -, hlast, hstep⟩
  · exact .inl hwaiting
  · exact h.calls hk hcall
  · have hcontent := DigestCall.content_step ⟨content, q⟩ s.storage
    rw [← hstep] at hcontent
    obtain rfl : c = content := hcontent
    rcases h.calls hk hlast with rfl | rfl
    · rw [DigestCall.step] at hstep
      simp only [h.stored] at hstep
      exact .inr (DigestCall.mk.inj hstep).2
    · exact .inr (DigestCall.mk.inj hstep).2

theorem Settled.run {n : ℕ} (h : Settled n c d s) (acts : List HandleAct) :
    Settled n c d (s.run acts) := by
  induction acts generalizing s with
  | nil => exact h
  | cons act acts ih => exact ih (h.step act)

/-! ### Progress -/

/-- Each step of a call brings it nearer to its answer. -/
theorem stepsLeft_run (h : s.calls[k]? = some call) (acts : List HandleAct) :
    ∃ last, (s.run acts).calls[k]? = some last ∧ last.content = call.content ∧
      last.stepsLeft ≤ call.stepsLeft - acts.countP (· = .advance k) := by
  induction acts generalizing s call with
  | nil => exact ⟨call, h, rfl, Nat.le_refl _⟩
  | cons act acts ih =>
    obtain ⟨last, hlast, hcontent, hle⟩ := ih (getElem?_calls_step h act)
    refine ⟨last, hlast, ?_, ?_⟩
    · rw [hcontent]
      split <;> simp
    · by_cases hact : act = .advance k
      · rw [if_pos hact] at hle
        have hstep := call.stepsLeft_step s.storage
        rw [List.countP_cons_of_pos (by simpa using hact)]
        omega
      · rw [if_neg hact] at hle
        rwa [List.countP_cons_of_neg (by simpa using hact)]

/-- A call does not fail while the file can be read. -/
theorem not_answered_error_of_readable {p : DigestProgress} {e : FileError}
    {acts : List HandleAct} (h : s.calls[k]? = some ⟨c, p⟩) (hp : ∀ e, p ≠ .answered (.error e))
    (hread : ∀ before, before <+: acts → ∃ bytes, c.read (s.run before).storage = .ok bytes) :
    ¬ (s.run acts).Answered k c (.error e) := by
  induction acts generalizing s p with
  | nil =>
    intro hfailed
    cases h.symm.trans hfailed
    exact hp e rfl
  | cons act acts ih =>
    obtain ⟨bytes, hbytes⟩ := hread [] List.nil_prefix
    have hcall := getElem?_calls_step h act
    have hafter : ∀ before, before <+: acts →
        ∃ bytes, c.read ((s.step act).run before).storage = .ok bytes := fun before hbefore =>
      hread (act :: before) (List.cons_prefix_cons.2 ⟨rfl, hbefore⟩)
    split at hcall
    · have hcontent := DigestCall.content_step ⟨c, p⟩ s.storage
      rcases hstep : (DigestCall.step ⟨c, p⟩ s.storage).1 with ⟨content, q⟩
      rw [hstep] at hcall hcontent
      obtain rfl : content = c := hcontent
      refine ih hcall ?_ hafter
      rintro e rfl
      rcases DigestCall.of_step_eq_error hstep with hbefore | ⟨-, herror⟩
      · exact hp e (DigestCall.mk.inj hbefore).2
      · have hboth := herror.symm.trans hbytes
        cases hboth
    · exact ih hcall hp hafter

/-- A call that takes its steps while the file can be read succeeds. -/
theorem exists_answered_of_readable {acts : List HandleAct} (h : s.calls[k]? = some ⟨c, .waiting⟩)
    (hcount : 3 ≤ acts.countP (· = .advance k))
    (hread : ∀ before, before <+: acts → ∃ bytes, c.read (s.run before).storage = .ok bytes) :
    ∃ d, (s.run acts).Answered k c (.ok d) := by
  obtain ⟨⟨content, p⟩, hlast, hcontent, hle⟩ := stepsLeft_run h acts
  obtain rfl : content = c := hcontent
  have hthree := DigestCall.stepsLeft_le_three ⟨content, .waiting⟩
  have hdone : (⟨content, p⟩ : DigestCall).stepsLeft = 0 := by omega
  obtain ⟨answer, rfl⟩ := DigestCall.stepsLeft_eq_zero.1 hdone
  cases answer with
  | ok d => exact ⟨d, hlast⟩
  | error e => exact absurd hlast (not_answered_error_of_readable h (by simp) hread)

/-! ### Steps that are left out -/

/-- A history without the steps of some calls. -/
def quiet (dropped : ℕ → Bool) (history : List HandleAct) : List HandleAct :=
  history.filter fun act => !act.isStepOf dropped

/-- Two sessions are alike for those who use the handle `c` and have none of the calls that are
left out. -/
structure AlikeAt (c : Content) (dropped : ℕ → Bool) (s q : HandleSession) : Prop where
  /-- The files are the same. -/
  disk : s.storage.disk = q.storage.disk
  /-- The next handle has the same number. -/
  nextId : s.storage.nextId = q.storage.nextId
  /-- The handles are the same. -/
  handles : s.handles = q.handles
  /-- The same is stored for the handle. -/
  stored : s.storage.digest? c = q.storage.digest? c
  /-- The same calls have begun. -/
  contents : s.calls.map (·.content) = q.calls.map (·.content)
  /-- Calls on the handle are equally far. -/
  calls {k : ℕ} {p : DigestProgress} : dropped k = false →
    (s.calls[k]? = some ⟨c, p⟩ ↔ q.calls[k]? = some ⟨c, p⟩)

namespace AlikeAt

variable {dropped : ℕ → Bool}

theorem refl (c : Content) (dropped : ℕ → Bool) (s : HandleSession) : AlikeAt c dropped s s :=
  ⟨rfl, rfl, rfl, rfl, rfl, fun _ => Iff.rfl⟩

theorem symm (h : AlikeAt c dropped s q) : AlikeAt c dropped q s :=
  ⟨h.disk.symm, h.nextId.symm, h.handles.symm, h.stored.symm, h.contents.symm,
    fun hk => (h.calls hk).symm⟩

theorem length_calls (h : AlikeAt c dropped s q) : s.calls.length = q.calls.length := by
  simpa using congrArg List.length h.contents

theorem getElem?_calls (h : AlikeAt c dropped s q) (hcall : s.calls[k]? = some call) :
    ∃ p, q.calls[k]? = some ⟨call.content, p⟩ := by
  have hcontent := congrArg (·[k]?) h.contents
  simp only [List.getElem?_map, hcall, Option.map_some] at hcontent
  obtain ⟨⟨content, p⟩, hq, hcontent⟩ := Option.map_eq_some_iff.1 hcontent.symm
  obtain rfl : content = call.content := hcontent
  exact ⟨p, hq⟩

/-- The contents of calls do not change when a call takes a step. -/
theorem map_content_set (hcall : s.calls[k]? = some call) :
    (s.calls.set k (call.step s.storage).1).map (·.content) = s.calls.map (·.content) := by
  obtain ⟨hlt, rfl⟩ := List.getElem?_eq_some_iff.1 hcall
  have hself := List.set_getElem_self (by simpa using hlt : k < (s.calls.map (·.content)).length)
  rw [List.getElem_map] at hself
  rw [List.map_set, DigestCall.content_step, hself]

/-- A step of a call is not noticed if it stores nothing for the handle and the call is left out or
on another handle. -/
theorem advance (h : AlikeAt c dropped s q) (hcall : s.calls[k]? = some call)
    (hk : dropped k = true ∨ call.content ≠ c)
    (hstored : (s.step (.advance k)).storage.digest? c = s.storage.digest? c) :
    AlikeAt c dropped (s.step (.advance k)) q := by
  rw [step_advance hcall] at hstored ⊢
  refine ⟨?_, ?_, h.handles, hstored.trans h.stored, ?_, ?_⟩
  · exact (call.disk_step s.storage).trans h.disk
  · exact (call.nextId_step s.storage).trans h.nextId
  · exact (map_content_set hcall).trans h.contents
  · intro j p hj
    rw [← h.calls hj]
    by_cases hjk : k = j
    · subst hjk
      have hlt : k < s.calls.length := (List.getElem?_eq_some_iff.1 hcall).1
      have hother : call.content ≠ c := hk.resolve_left (by simp [hj])
      rw [List.getElem?_set_self hlt, hcall, Option.some.injEq, Option.some.injEq]
      -- neither the call nor what becomes of it is on the handle
      constructor
      · intro hstep
        rw [← call.content_step s.storage, hstep] at hother
        exact absurd rfl hother
      · rintro rfl
        exact absurd rfl hother
    · rw [List.getElem?_set_ne hjk]

/-- Whatever is not left out keeps two sessions alike. -/
theorem step (h : AlikeAt c dropped s q) (hact : act.isStepOf dropped = false) :
    AlikeAt c dropped (s.step act) (q.step act) := by
  cases act with
  | write | delete =>
    refine ⟨?_, h.nextId, h.handles, h.stored, h.contents, h.calls⟩
    simp only [HandleSession.step, withDisk, h.disk]
  | change disk => exact ⟨rfl, h.nextId, h.handles, h.stored, h.contents, h.calls⟩
  | openFile name =>
    simp only [HandleSession.step, Storage.openFile, h.disk, h.nextId, h.handles]
    cases q.storage.disk.size name with
    | error e => exact h
    | ok size => exact ⟨rfl, rfl, rfl, h.stored, h.contents, h.calls⟩
  | copy i =>
    refine ⟨h.disk, h.nextId, ?_, h.stored, h.contents, h.calls⟩
    simp only [HandleSession.step, h.handles]
  | size i => exact h
  | read i => exact h
  | askDigest i =>
    have hlength := h.length_calls
    refine ⟨h.disk, h.nextId, h.handles, h.stored, ?_, ?_⟩
    · simp only [HandleSession.step, h.handles, List.map_append, h.contents]
    · intro k p hk
      simp only [HandleSession.step, h.handles]
      rcases Nat.lt_or_ge k s.calls.length with hlt | hge
      · rw [List.getElem?_append_left hlt, List.getElem?_append_left (hlength ▸ hlt)]
        exact h.calls hk
      · rw [List.getElem?_append_right hge, List.getElem?_append_right (hlength ▸ hge), hlength]
  | advance k =>
    cases hcall : s.calls[k]? with
    | none =>
      have hq : q.calls[k]? = none := by
        rw [List.getElem?_eq_none_iff] at hcall ⊢
        exact h.length_calls ▸ hcall
      rw [step_advance_of_none hcall, step_advance_of_none hq]
      exact h
    | some call =>
      obtain ⟨p, hq⟩ := h.getElem?_calls hcall
      rcases eq_or_ne call.content c with rfl | hc
      · -- the same call takes the same step in both
        have hq : q.calls[k]? = some call := (h.calls hact).1 hcall
        obtain ⟨hsame, hstored⟩ := call.step_congr h.disk h.stored
        rw [step_advance hcall, step_advance hq]
        refine ⟨by simpa using h.disk, by simpa using h.nextId, h.handles, hstored, ?_, ?_⟩
        · exact (map_content_set hcall).trans (h.contents.trans (map_content_set hq).symm)
        · intro j p hj
          have hlt := (List.getElem?_eq_some_iff.1 hcall).1
          have hlt' := (List.getElem?_eq_some_iff.1 hq).1
          rcases eq_or_ne k j with rfl | hjk
          · rw [List.getElem?_set_self hlt, List.getElem?_set_self hlt', hsame]
          · rw [List.getElem?_set_ne hjk, List.getElem?_set_ne hjk]
            exact h.calls hj
      · -- calls on another handle may be at different steps, which is not noticed in either
        have hleft := h.advance hcall (.inr hc)
          (by rw [step_advance hcall]; exact DigestCall.digest?_step_of_ne _ hc.symm)
        have hright := hleft.symm.advance hq (.inr hc)
          (by rw [step_advance hq]; exact DigestCall.digest?_step_of_ne _ hc.symm)
        exact hright.symm

end AlikeAt

theorem quiet_concat (dropped : ℕ → Bool) (history : List HandleAct) (act : HandleAct) :
    quiet dropped (history ++ [act]) =
      if act.isStepOf dropped then quiet dropped history else quiet dropped history ++ [act] := by
  unfold quiet
  cases hact : act.isStepOf dropped <;> simp [hact]

/-- Leave out the steps of calls that do not succeed for the handle `c`, and of any calls on other
handles: those who use `c` do not notice. -/
theorem alikeAt_quiet {dropped : ℕ → Bool}
    (h : ∀ k d, dropped k → ¬ (after files history).Answered k c (.ok d)) :
    AlikeAt c dropped (after files history) (after files (quiet dropped history)) := by
  induction history using List.reverseRecOn with
  | nil => exact AlikeAt.refl c dropped _
  | append_singleton history act ih =>
    rw [after_concat] at h ⊢
    have hsame := ih fun k d hk hanswered => h k d hk (hanswered.step act)
    rw [quiet_concat]
    cases hact : act.isStepOf dropped with
    | false =>
      rw [if_neg (by simp), after_concat]
      exact hsame.step hact
    | true =>
      rw [if_pos rfl]
      cases act with
      | advance k =>
        cases hcall : (after files history).calls[k]? with
        | none =>
          rw [step_advance_of_none hcall]
          exact hsame
        | some call =>
          refine hsame.advance hcall (.inl hact) ?_
          -- it would have stored something only with its last step
          rcases (after files history).digest?_step (.advance k) c with
            heq | ⟨_, bytes, ⟨⟩, -, -, -, hanswered⟩
          · exact heq
          · exact absurd hanswered (h k _ hact)
      | _ => cases hact

/-! ### Sizes and bytes -/

/-- Handles stay where they are. -/
theorem getElem?_handles_step (h : s.handles[i]? = some c) (act : HandleAct) :
    (s.step act).handles[i]? = some c := by
  have hlt : i < s.handles.length := (List.getElem?_eq_some_iff.1 h).1
  cases act with
  | openFile name =>
    simp only [step, Storage.openFile]
    cases s.storage.disk.size name with
    | error e => exact h
    | ok size => exact (List.getElem?_append_left hlt).trans h
  | copy j => exact (List.getElem?_append_left hlt).trans h
  | advance k =>
    cases hcall : s.calls[k]? with
    | some call => rwa [step_advance hcall]
    | none => rwa [step_advance_of_none hcall]
  | _ => exact h

theorem getElem?_handles_run (h : s.handles[i]? = some c) (acts : List HandleAct) :
    (s.run acts).handles[i]? = some c := by
  induction acts generalizing s with
  | nil => exact h
  | cons act acts ih => exact ih (getElem?_handles_step h act)

/-- What neither writes nor deletes nor changes the disk leaves it as it is. -/
theorem disk_step (h : act.changesFiles = false) : (s.step act).storage.disk = s.storage.disk := by
  cases act with
  | write | delete | change => cases h
  | openFile name =>
    simp only [step, Storage.openFile]
    cases s.storage.disk.size name <;> rfl
  | advance k =>
    cases hcall : s.calls[k]? with
    | some call => rw [step_advance hcall, DigestCall.disk_step]
    | none => rw [step_advance_of_none hcall]
  | copy | size | read | askDigest => rfl

/-- What fails changes nothing. -/
theorem disk_step_write (s : HandleSession) (name : String) (bytes : List UInt8) :
    (s.step (.write name bytes)).storage.disk =
      (s.storage.disk.write name bytes).toOption.getD s.storage.disk := rfl

theorem disk_step_delete (s : HandleSession) (name : String) :
    (s.step (.delete name)).storage.disk =
      (s.storage.disk.delete name).toOption.getD s.storage.disk := rfl

section Answers

variable {id size : ℕ} {name n : String}

theorem answer?_size (h : s.handles[i]? = some ⟨id, .file name size⟩) :
    s.answer? (.size i) = some (.size size) := by
  rw [answer?, h]
  rfl

theorem answer?_read (h : s.handles[i]? = some ⟨id, .file name size⟩) :
    s.answer? (.read i) = some (.bytes (s.storage.disk.read name)) := by
  rw [answer?, h]
  rfl

/-- What has been written under any of its names is read of a file. -/
theorem disk_read_step_write {bytes : List UInt8} {disk : Disk}
    (hn : s.storage.disk.target n = s.storage.disk.target name)
    (hwrite : s.storage.disk.write n bytes = .ok disk) :
    (s.step (.write n bytes)).storage.disk.read name = .ok bytes := by
  rw [disk_step_write, hwrite]
  exact Disk.read_write hwrite hn.symm

/-- A file that has been deleted under any of its names is not found. -/
theorem disk_read_step_delete {disk : Disk}
    (hn : s.storage.disk.target n = s.storage.disk.target name)
    (hdelete : s.storage.disk.delete n = .ok disk) :
    (s.step (.delete n)).storage.disk.read name = .error .notFound := by
  rw [disk_step_delete, hdelete]
  exact Disk.read_delete hdelete hn.symm

/-- Writing and deleting other files is not noticed in what is read of a file. -/
theorem disk_read_step_of_ne {key : String} (hkey : s.storage.disk.target name = .file key)
    (hn : s.storage.disk.target n ≠ s.storage.disk.target name) (bytes : List UInt8) :
    (s.step (.write n bytes)).storage.disk.read name = s.storage.disk.read name ∧
      (s.step (.delete n)).storage.disk.read name = s.storage.disk.read name := by
  rw [disk_step_write, disk_step_delete]
  refine ⟨?_, ?_⟩
  · cases hwrite : s.storage.disk.write n bytes with
    | error e => rfl
    | ok disk => exact Disk.read_write_of_ne hwrite hkey hn.symm
  · cases hdelete : s.storage.disk.delete n with
    | error e => rfl
    | ok disk => exact Disk.read_delete_of_ne hdelete hkey hn.symm

end Answers

/-! ### Any history -/

/-- Over any history of writing and deleting files, of any other changes to any disk, of making and
copying handles, of asking for sizes, bytes and digests, with the steps of calls for digests in any
order:

* a handle's size stays what it was found to be when the handle was made, and its bytes are those
  that are read now where its name leads, or the reason why there are none;
* so they are what was just written there under any name, there are none after a deletion, and
  another file, or what happens to handles, makes no difference;
* a call that nothing comes between is answered as `Content.digest` answers;
* all calls on a handle and its copies that succeed answer one digest, that of the bytes which one
  of them has read;
* once a call has succeeded, those that begin later go to no file and answer the same;
* a call fails only if it could not read, and a call that takes its steps while the file can be read
  succeeds;
* if the steps are left out of some calls that do not succeed, or that are on other handles, then
  nothing else changes for a handle; and a handle that is made is none of those made before. -/
theorem handles_over_history (files : Disk) (history : List HandleAct) :
    let s := after files history
    (∀ (i id : ℕ) (name : String) (size : ℕ), s.handles[i]? = some ⟨id, .file name size⟩ →
      (∀ more, (s.run more).answer? (.size i) = some (.size size) ∧
        (s.run more).answer? (.read i) = some (.bytes ((s.run more).storage.disk.read name))) ∧
      (∀ n, s.storage.disk.target n = s.storage.disk.target name →
        (∀ bytes disk, s.storage.disk.write n bytes = .ok disk →
          (s.step (.write n bytes)).answer? (.read i) = some (.bytes (.ok bytes))) ∧
        ∀ disk, s.storage.disk.delete n = .ok disk →
          (s.step (.delete n)).answer? (.read i) = some (.bytes (.error .notFound))) ∧
      (∀ n key bytes, s.storage.disk.target name = .file key →
        s.storage.disk.target n ≠ s.storage.disk.target name →
          (s.step (.write n bytes)).answer? (.read i) = s.answer? (.read i) ∧
          (s.step (.delete n)).answer? (.read i) = s.answer? (.read i)) ∧
      (∀ act : HandleAct, act.changesFiles = false →
        (s.step act).answer? (.read i) = s.answer? (.read i)) ∧
      ∃ before rest, history = before ++ .openFile name :: rest ∧
        (after files before).storage.disk.size name = .ok size ∧
        ⟨id, .file name size⟩ ∉ (after files before).handles) ∧
    (∀ c t, DigestCall.next^[3] (⟨c, .waiting⟩, t) =
      (⟨c, .answered (c.digest t).1⟩, (c.digest t).2)) ∧
    (∀ k c d, s.Answered k c (.ok d) →
      (∀ j e, s.Answered j c (.ok e) → e = d) ∧
      (∃ j bytes, s.Answered j c (.ok d) ∧ HasRead files history j c (.ok bytes) ∧
        d = .ofContent bytes) ∧
      ∀ more j p, s.calls.length ≤ j → (s.run more).calls[j]? = some ⟨c, p⟩ →
        p = .waiting ∨ p = .answered (.ok d)) ∧
    (∀ k c e, s.Answered k c (.error e) → HasRead files history k c (.error e)) ∧
    (∀ k c more, s.calls[k]? = some ⟨c, .waiting⟩ → 3 ≤ more.countP (· = .advance k) →
      (∀ before, before <+: more → ∃ bytes, c.read (s.run before).storage = .ok bytes) →
      ∃ d, (s.run more).Answered k c (.ok d)) ∧
    ∀ (c : Content) (dropped : ℕ → Bool),
      (∀ k d, dropped k → ¬ s.Answered k c (.ok d)) →
      AlikeAt c dropped s (after files (quiet dropped history)) := by
  intro s
  have hsound := sound files history
  refine ⟨?handle, DigestCall.iterate_next, ?succeeded, fun k c e => hsound.failed,
    fun k c more => exists_answered_of_readable, fun c dropped => alikeAt_quiet⟩
  case handle =>
    intro i id name size hi
    refine ⟨?always, ?same, ?others, ?quiet, ?made⟩
    case always =>
      intro more
      have hlater := getElem?_handles_run hi more
      exact ⟨answer?_size hlater, answer?_read hlater⟩
    case same =>
      intro n hn
      refine ⟨?_, ?_⟩
      · intro bytes disk hwrite
        rw [answer?_read (getElem?_handles_step hi _), disk_read_step_write hn hwrite]
      · intro disk hdelete
        rw [answer?_read (getElem?_handles_step hi _), disk_read_step_delete hn hdelete]
    case others =>
      intro n key bytes hkey hn
      obtain ⟨hwrite, hdelete⟩ := disk_read_step_of_ne hkey hn bytes
      rw [answer?_read (getElem?_handles_step hi _), answer?_read (getElem?_handles_step hi _),
        answer?_read hi, hwrite, hdelete]
      exact ⟨rfl, rfl⟩
    case quiet =>
      intro act hact
      rw [answer?_read (getElem?_handles_step hi act), answer?_read hi, disk_step hact]
    case made =>
      obtain ⟨before, rest, name', size', hhistory, hsource, hsize, hnew⟩ :=
        exists_openFile_of_mem_handles (List.mem_of_getElem? hi)
      cases hsource
      exact ⟨before, rest, hhistory, hsize, hnew⟩
  case succeeded =>
    intro k c d hanswered
    have hstored := hsound.agree hanswered
    refine ⟨?_, hsound.stored hstored, ?_⟩
    · intro j e hj
      exact Option.some.inj ((hsound.agree hj).symm.trans hstored)
    · intro more j p hj hcall
      have hnow : Settled s.calls.length c d s := by
        refine ⟨hstored, ?_⟩
        intro i q hi hcall
        rw [List.getElem?_eq_none_iff.2 hi] at hcall
        cases hcall
      exact (hnow.run more).calls hj hcall

/-- A disk on which each name leads to a file of its own; one of them, in a directory with a name,
holds one byte. -/
def oneByteFile : Disk := ⟨fun key => if key = "/tmp/d/f" then some [1] else none, .file⟩

/-- A handle to the file, and a copy of it, are asked for their digest.  One call reads the byte,
then the file is written, and the other call reads and stores first. -/
def racingHistory : List HandleAct :=
  [.openFile "/tmp/d/f", .copy 0, .askDigest 0, .askDigest 1, .advance 0, .advance 1, .advance 0,
    .write "/tmp/d/f" [2, 2], .advance 1, .advance 1, .advance 0]

/-- Both calls answer the digest of the new bytes, although the first has read the old one; and so
does every call that begins later, whatever happens to the file, even if the disk becomes one where
there is nothing to read. -/
theorem handles_over_history_race :
    let s := after oneByteFile racingHistory
    s.handles = [⟨1, .file "/tmp/d/f" 1⟩, ⟨1, .file "/tmp/d/f" 1⟩] ∧
    HasRead oneByteFile racingHistory 0 ⟨1, .file "/tmp/d/f" 1⟩ (.ok [1]) ∧
    s.Answered 0 ⟨1, .file "/tmp/d/f" 1⟩ (.ok (.ofContent [2, 2])) ∧
    s.Answered 1 ⟨1, .file "/tmp/d/f" 1⟩ (.ok (.ofContent [2, 2])) ∧
    s.answer? (.size 1) = some (.size 1) ∧ s.answer? (.read 1) = some (.bytes (.ok [2, 2])) ∧
    (s.step (.write "/tmp/d/f" [3])).answer? (.read 1) = some (.bytes (.ok [3])) ∧
    (s.step (.delete "/tmp/d/f")).answer? (.read 1) = some (.bytes (.error .notFound)) ∧
    (∀ more, (s.run more).answer? (.size 1) = some (.size 1)) ∧
    (s.run [.change .empty]).answer? (.read 1) = some (.bytes (Disk.empty.read "/tmp/d/f")) ∧
    (s.run [.change .empty, .askDigest 1, .advance 2]).Answered 2 ⟨1, .file "/tmp/d/f" 1⟩
      (.ok (.ofContent [2, 2])) ∧
    ∀ more j p, 2 ≤ j → (s.run more).calls[j]? = some ⟨⟨1, .file "/tmp/d/f" 1⟩, p⟩ →
      p = .waiting ∨ p = .answered (.ok (.ofContent [2, 2])) := by
  intro s
  have hfirst : s.Answered 0 ⟨1, .file "/tmp/d/f" 1⟩ (.ok (.ofContent [2, 2])) := rfl
  obtain ⟨hhandles, -, hsucceeded, -⟩ := handles_over_history oneByteFile racingHistory
  obtain ⟨halways, hsame, -, -, -⟩ := hhandles 1 1 "/tmp/d/f" 1 rfl
  obtain ⟨hsize, hread⟩ := halways []
  obtain ⟨hwritten, hdeleted⟩ := hsame "/tmp/d/f" rfl
  obtain ⟨-, -, hlater⟩ := hsucceeded 0 _ _ hfirst
  refine ⟨rfl, ⟨racingHistory.take 6, racingHistory.drop 7, rfl, rfl, rfl⟩, hfirst, rfl, hsize,
    hread, hwritten [3] _ rfl, hdeleted _ rfl, fun more => (halways more).1,
    (halways [.change .empty]).2, rfl, hlater⟩

end HandleSession
end BundlePackaging
