import Mathlib.Data.List.Basic
import OpenMat.Documents.Writer

/-!
This module contains the chain of the writes of a session writer: the calls, the outcomes of the writes that have
completed, and how far the write after them has come. The promises and the jobs of a reachable state are those of a
chain, so writes do not overlap and are issued in the order of the calls.
-/

namespace OpenMat
namespace Documents
namespace SessionWriter

open Promises

variable {S : Type}

/-- How far the first write is whose call has not been answered. -/
inductive Current where
  | idle
  | direct
  | unfollowed (completed : Option Outcome)
  | followed
  | adopting (outcome : Outcome)

structure Chain (S : Type) where
  calls : List S
  /-- Whether the promise of a call is chained to the one before. -/
  chained : List Bool
  outcomes : List Outcome
  current : Current

namespace Chain

def issued (chain : Chain S) : Nat :=
  match chain.current with
  | .idle => chain.outcomes.length
  | _ => chain.outcomes.length + 1

def promise (chained : Bool) (call : Nat) : PromiseId :=
  if chained then .chained call else .written call

/-- What waits for the promise of a call: its own cleanup, and the write of the next call. -/
def waiters (chain : Chain S) (call : Nat) (promise : PromiseId) : List (Outcome → Job S) :=
  (fun _ => .finished promise) ::
    (chain.calls[call + 1]?).toList.map fun session _ => .write (call + 1) session

def currentPromise (chain : Chain S) (call : Nat) : Option (Promise Outcome (Job S)) :=
  match chain.current with
  | .idle => none
  | .direct => some (.pending (chain.waiters call (.written call)))
  | .unfollowed none => some (.pending [])
  | .unfollowed (some outcome) => some (.settled outcome)
  | .followed => some (.pending [.adopt call])
  | .adopting outcome => some (.settled outcome)

def promises (chain : Chain S) : PromiseId → Option (Promise Outcome (Job S))
  | .written call =>
    match chain.outcomes[call]? with
    | some outcome => some (.settled outcome)
    | none => if call = chain.outcomes.length then chain.currentPromise call else none
  | .chained call =>
    if chain.chained[call]? = some true then
      match chain.outcomes[call]? with
      | some outcome => some (.settled outcome)
      | none => some (.pending (chain.waiters call (.chained call)))
    else
      none

/-- The job that continues the chain, if one does. -/
def control (chain : Chain S) : List (Job S) :=
  let call := chain.outcomes.length
  match chain.current with
  | .idle => (chain.calls[call]?).toList.map fun session => .write call session
  | .unfollowed _ => [.follow call]
  | .adopting outcome => [.adopt call outcome]
  | _ => []

structure WellFormed (chain : Chain S) : Prop where
  length_chained : chain.chained.length = chain.calls.length
  issued_le : chain.issued ≤ chain.calls.length
  issued_pos : 0 < chain.calls.length → 0 < chain.issued
  waiting : ∀ call, chain.issued ≤ call → call < chain.calls.length → chain.chained[call]? = some true
  current : match chain.current with
    | .idle => True
    | .direct => chain.chained[chain.outcomes.length]? = some false
    | _ => chain.chained[chain.outcomes.length]? = some true

end Chain

def Job.isControl : Job S → Bool
  | .finished _ => false
  | _ => true

/-- The state is one of the chain. Only the order of the jobs, and which cleanups have run, is left open. -/
structure Chains (chain : Chain S) (s : State S) : Prop where
  wellFormed : chain.WellFormed
  calls : s.calls = chain.calls
  returned : s.returned = chain.chained.mapIdx fun call chained => Chain.promise chained call
  issued : s.issued = chain.calls.take chain.issued
  promises : s.runtime.promises = chain.promises
  control : s.runtime.jobs.filter Job.isControl = chain.control
  finished : ∀ promise, .finished promise ∈ s.runtime.jobs →
    ∃ call < chain.outcomes.length, s.returned[call]? = some promise
  pending_none : s.pending = none → chain.outcomes.length = chain.calls.length
  pending_some : ∀ promise, s.pending = some promise → s.returned.getLast? = some promise

variable {chain : Chain S} {s : State S} {session : S}

theorem Chain.length_outcomes_le (chain : Chain S)
    : chain.outcomes.length ≤ chain.issued ∧ chain.issued ≤ chain.outcomes.length + 1 := by
  rw [Chain.issued.eq_def]
  split
  . exact ⟨Nat.le_refl _, Nat.le_succ _⟩
  . exact ⟨Nat.le_succ _, Nat.le_refl _⟩

namespace Chain

theorem promise_inj {a b : Bool} {j k : Nat} (h : promise a j = promise b k)
    : j = k := by
  cases a <;> cases b <;> simp_all [promise]

/-- The promise that a call returned settles with the outcome of the write of the call. -/
theorem promises_promise (hw : chain.WellFormed) {call : Nat} {chained : Bool}
    (h : chain.chained[call]? = some chained)
    : chain.promises (promise chained call) =
        match chain.outcomes[call]? with
        | some outcome => some (.settled outcome)
        | none => some (.pending (chain.waiters call (promise chained call))) := by
  cases chained with
  | true => simp [promise, promises, h]
  | false =>
    simp only [promise, promises, Bool.false_eq_true, if_false]
    split
    . rfl
    . next hnone =>
      have hge := List.getElem?_eq_none_iff.mp hnone
      have hlt : call < chain.calls.length := by
        rw [← hw.length_chained]
        exact (List.getElem?_eq_some_iff.mp h).1
      have hissued : call < chain.issued := by
        apply Nat.lt_of_not_le
        intro hle
        have hwaiting := hw.waiting call hle hlt
        rw [h] at hwaiting
        cases hwaiting
      have hle := chain.length_outcomes_le
      obtain rfl : call = chain.outcomes.length := by omega
      have hcurrent := hw.current
      rw [if_pos rfl, currentPromise.eq_def]
      rw [issued.eq_def] at hissued
      split at hissued
      . omega
      . cases hc : chain.current with
        | direct => rfl
        | _ => simp_all

/-- One more call: nothing has been issued for it yet, or its write is the current one. -/
def append (chain : Chain S) (session : S) (chained : Bool) (current : Current) : Chain S where
  calls := chain.calls ++ [session]
  chained := chain.chained ++ [chained]
  outcomes := chain.outcomes
  current := current

theorem waiters_append_of_ne {chained : Bool} {current : Current} {call : Nat} (promise : PromiseId)
    (h : call + 1 ≠ chain.calls.length)
    : (chain.append session chained current).waiters call promise = chain.waiters call promise := by
  rw [waiters, waiters, append]
  congr 3
  rcases Nat.lt_or_gt_of_ne h with hlt | hgt
  . exact List.getElem?_append_left hlt
  . rw [List.getElem?_eq_none (by simp; omega), List.getElem?_eq_none (Nat.le_of_lt hgt)]

theorem waiters_append {chained : Bool} {current : Current} {call : Nat} (promise : PromiseId)
    (h : call + 1 = chain.calls.length)
    : (chain.append session chained current).waiters call promise =
        chain.waiters call promise ++ [fun _ => .write chain.calls.length session] := by
  rw [waiters, waiters, append, h]
  simp

theorem getElem?_chained_append (hw : chain.WellFormed) {chained : Bool} {current : Current} {call : Nat}
    (h : call ≠ chain.calls.length)
    : (chain.append session chained current).chained[call]? = chain.chained[call]? := by
  rw [append]
  rcases Nat.lt_or_gt_of_ne h with hlt | hgt
  . exact List.getElem?_append_left (hw.length_chained ▸ hlt)
  . have hlength := hw.length_chained
    rw [List.getElem?_eq_none, List.getElem?_eq_none]
    . omega
    . rw [List.length_append, List.length_singleton]
      omega

theorem append_waiting (hw : chain.WellFormed)
    : (chain.append session true chain.current).chained[chain.calls.length]? = some true := by
  rw [append, ← hw.length_chained]
  simp

theorem wellFormed_append (hw : chain.WellFormed) {call : Nat} (hcall : call + 1 = chain.calls.length)
    : (chain.append session true chain.current).WellFormed := by
  have hissued : (chain.append session true chain.current).issued = chain.issued := rfl
  have hle := hw.issued_le
  have hkept {k : Nat} (hk : k < chain.calls.length) {chained : Bool} (h : chain.chained[k]? = some chained)
      : (chain.append session true chain.current).chained[k]? = some chained := by
    rw [append, List.getElem?_append_left (hw.length_chained ▸ hk), h]
  constructor
  . simp [append, hw.length_chained]
  . rw [hissued, append, List.length_append, List.length_singleton]
    omega
  . intro _
    rw [hissued]
    exact hw.issued_pos (by omega)
  . intro k hk hlt
    rw [hissued] at hk
    rw [append, List.length_append, List.length_singleton] at hlt
    by_cases hlast : k = chain.calls.length
    . rw [hlast, append_waiting hw]
    . exact hkept (by omega) (hw.waiting k hk (by omega))
  . have hcurrent := hw.current
    rw [issued.eq_def] at hle
    simp only [append] at hkept ⊢
    split
    . trivial
    . next hdirect =>
      rw [hdirect] at hcurrent hle
      exact hkept (Nat.lt_of_succ_le hle) hcurrent
    . next hidle hdirect =>
      split at hcurrent
      . next h => exact absurd h hidle
      . next h => exact absurd h hdirect
      . split at hle
        . next h => exact absurd h hidle
        . exact hkept (Nat.lt_of_succ_le hle) hcurrent

end Chain

theorem lt_length {promise : PromiseId} {call : Nat} (h : s.returned[call]? = some promise)
    : call < s.returned.length :=
  (List.getElem?_eq_some_iff.mp h).1

theorem Chains.exists_chained (hs : Chains chain s) {call : Nat} {promise : PromiseId}
    (h : s.returned[call]? = some promise)
    : ∃ chained, chain.chained[call]? = some chained ∧ promise = Chain.promise chained call := by
  rw [hs.returned, List.getElem?_mapIdx, Option.map_eq_some_iff] at h
  obtain ⟨chained, hchained, rfl⟩ := h
  exact ⟨chained, hchained, rfl⟩

theorem Chains.length_returned (hs : Chains chain s)
    : s.returned.length = s.calls.length := by
  rw [hs.returned, List.length_mapIdx, hs.wellFormed.length_chained, hs.calls]

/-- The promise of the last call. -/
theorem Chains.last (hs : Chains chain s) {before : PromiseId} (h : s.pending = some before)
    : ∃ call chained, call + 1 = chain.calls.length ∧ chain.chained[call]? = some chained ∧
        before = Chain.promise chained call := by
  have hlast := hs.pending_some before h
  rw [List.getLast?_eq_getElem?] at hlast
  obtain ⟨chained, hchained, hbefore⟩ := hs.exists_chained hlast
  refine ⟨_, chained, ?_, hchained, hbefore⟩
  have hlt := lt_length hlast
  rw [hs.length_returned, hs.calls] at hlt ⊢
  omega

section Call

theorem save_none (h : s.pending = none)
    : s.save session = {
        pending := some (.written s.calls.length)
        calls := s.calls ++ [session]
        returned := s.returned ++ [.written s.calls.length]
        issued := s.issued ++ [session]
        runtime := s.runtime.put (.written s.calls.length)
          (.pending [fun _ => .finished (.written s.calls.length)]) } := by
  simp [State.save, h, State.storeSave, Runtime.create, Runtime.subscribe, Runtime.put]

theorem save_some {before : PromiseId} (h : s.pending = some before)
    : s.save session = {
        pending := some (.chained s.calls.length)
        calls := s.calls ++ [session]
        returned := s.returned ++ [.chained s.calls.length]
        issued := s.issued
        runtime := ((s.runtime.create (.chained s.calls.length)).subscribe before fun _ =>
          .write s.calls.length session).subscribe (.chained s.calls.length) fun _ =>
            .finished (.chained s.calls.length) } := by
  simp [State.save, h]

/-- A call while nothing is pending issues its write. -/
theorem Chains.save_none (hs : Chains chain s) (h : s.pending = none)
    : Chains (chain.append session false .direct) (s.save session) := by
  have hlength := hs.pending_none h
  have hw := hs.wellFormed
  have hidle : chain.current = .idle := by
    have := hw.issued_le
    rw [Chain.issued.eq_def] at this
    split at this
    . assumption
    . omega
  have hissued : chain.issued = chain.outcomes.length := by rw [Chain.issued, hidle]
  rw [SessionWriter.save_none h]
  constructor
  case wellFormed =>
    constructor
    . simp [Chain.append, hw.length_chained]
    . simp [Chain.append, Chain.issued, hlength]
    . simp [Chain.append, Chain.issued]
    . simp only [Chain.append, Chain.issued, List.length_append, List.length_singleton, hlength]
      omega
    . simp [Chain.append, hlength, ← hw.length_chained]
  case calls => rw [hs.calls, Chain.append]
  case returned => simp [Chain.append, hs.returned, Chain.promise, hw.length_chained, hs.calls]
  case issued =>
    rw [hs.issued, hissued, hlength, List.take_length]
    exact (List.take_of_length_le (by simp [Chain.append, Chain.issued, hlength])).symm
  case promises =>
    funext promise
    simp only [Runtime.put, hs.promises, hs.calls]
    cases promise with
    | written call =>
      by_cases hcall : call = chain.calls.length
      . subst hcall
        simp [Chain.append, Chain.promises, Chain.currentPromise, hlength, Chain.waiters]
      . rw [Function.update_of_ne (by simpa using hcall)]
        simp [Chain.append, Chain.promises, hlength, hcall]
    | chained call =>
      rw [Function.update_of_ne (by simp), Chain.promises, Chain.promises]
      by_cases hcall : call = chain.calls.length
      . have hlast : (chain.append session false .direct).chained[call]? = some false := by
          simp [Chain.append, hcall, ← hw.length_chained]
        have hnone : chain.chained[call]? = none :=
          List.getElem?_eq_none (Nat.le_of_eq (by rw [hw.length_chained, hcall]))
        rw [hlast, hnone]
        rfl
      . rw [Chain.getElem?_chained_append hw hcall]
        split
        . next hchained =>
          have hlt : call < chain.outcomes.length := by
            rw [hlength, ← hw.length_chained]
            exact (List.getElem?_eq_some_iff.mp hchained).1
          simp only [Chain.append, List.getElem?_eq_getElem hlt]
        . rfl
  case control =>
    simp only [Runtime.put, hs.control, Chain.append, Chain.control, hidle]
    simp [hlength]
  case finished =>
    intro promise hmem
    obtain ⟨call, hcall, hreturned⟩ := hs.finished promise hmem
    refine ⟨call, hcall, ?_⟩
    rw [List.getElem?_append_left (lt_length hreturned), hreturned]
  case pending_none => nofun
  case pending_some => simp

/-- Whatever the promise before does, the promise of the new call waits. -/
theorem Chain.promises_append (hw : chain.WellFormed) {call : Nat} {chained : Bool}
    (hcall : call + 1 = chain.calls.length) (h : chain.chained[call]? = some chained)
    : (chain.append session true chain.current).promises =
        Function.update
          (match chain.outcomes[call]? with
          | some _ => chain.promises
          | none => Function.update chain.promises (promise chained call)
              (some (.pending (chain.waiters call (promise chained call) ++
                [fun _ => .write chain.calls.length session]))))
          (.chained chain.calls.length)
          (some (.pending [fun _ => .finished (.chained chain.calls.length)])) := by
  have hw' : (chain.append session true chain.current).WellFormed := wellFormed_append hw hcall
  have hlt : call < chain.chained.length := (List.getElem?_eq_some_iff.mp h).1
  have hchained : (chain.append session true chain.current).chained[call]? = some chained := by
    rw [append, List.getElem?_append_left hlt, h]
  have hissued := Nat.le_trans chain.length_outcomes_le.1 hw.issued_le
  funext other
  by_cases hother : other = .chained chain.calls.length
  . subst hother
    rw [Function.update_self, promises, append_waiting hw, if_pos rfl]
    simp only [append, List.getElem?_eq_none hissued]
    simp [waiters]
  . rw [Function.update_of_ne hother]
    by_cases hbefore : other = promise chained call
    . subst hbefore
      rw [promises_promise hw' hchained, waiters_append _ hcall]
      have hsame := promises_promise hw h
      simp only [append]
      cases hcase : chain.outcomes[call]? with
      | some outcome =>
        rw [hcase] at hsame
        exact hsame.symm
      | none =>
        dsimp only
        rw [Function.update_self]
    . have hkept : (chain.append session true chain.current).promises other = chain.promises other := by
        cases other with
        | written k =>
          have hwaiters : chain.current = .direct → k = chain.outcomes.length →
              (chain.append session true chain.current).waiters k (.written k) =
                chain.waiters k (.written k) := by
            rintro hdirect rfl
            apply waiters_append_of_ne
            intro heq
            obtain rfl : call = chain.outcomes.length := by omega
            have hcurrent := hw.current
            rw [hdirect] at hcurrent
            rw [h, Option.some.injEq] at hcurrent
            subst hcurrent
            exact hbefore rfl
          simp only [promises]
          have houtcomes : (chain.append session true chain.current).outcomes = chain.outcomes := rfl
          rw [houtcomes]
          cases chain.outcomes[k]? with
          | some outcome => rfl
          | none =>
            by_cases heq : k = chain.outcomes.length
            . have hcurrent : (chain.append session true chain.current).current = chain.current := rfl
              simp only [if_pos heq, currentPromise, hcurrent]
              cases hcase : chain.current with
              | direct => simp only [← hwaiters hcase heq, hcase]
              | unfollowed completed => cases completed <;> rfl
              | _ => rfl
            . simp only [if_neg heq]
        | chained k =>
          have hne : k ≠ chain.calls.length := fun heq => hother (heq ▸ rfl)
          rw [promises, promises, getElem?_chained_append hw hne]
          split
          . next htrue =>
            have hk : k + 1 ≠ chain.calls.length := by
              intro heq
              obtain rfl : call = k := by omega
              rw [h, Option.some.injEq] at htrue
              subst htrue
              exact hbefore rfl
            rw [waiters_append_of_ne _ hk]
            rfl
          . rfl
      rw [hkept]
      cases chain.outcomes[call]? with
      | some outcome => rfl
      | none => exact (Function.update_of_ne hbefore _ _).symm

theorem Chains.runtime_save {call : Nat} {chained : Bool} (hs : Chains chain s)
    (hcall : call + 1 = chain.calls.length) (h : chain.chained[call]? = some chained)
    : ((s.runtime.create (.chained s.calls.length)).subscribe (Chain.promise chained call) fun _ =>
          .write s.calls.length session).subscribe (.chained s.calls.length) (fun _ =>
            .finished (.chained s.calls.length)) = {
        promises := (chain.append session true chain.current).promises
        jobs := s.runtime.jobs ++
          match chain.outcomes[call]? with
          | some _ => [.write s.calls.length session]
          | none => [] } := by
  have hw := hs.wellFormed
  have hbefore := Chain.promises_promise hw h
  rw [← hs.promises] at hbefore
  have hnone : s.runtime.promises (.chained s.calls.length) = none := by
    rw [hs.promises, Chain.promises, List.getElem?_eq_none, if_neg nofun]
    exact Nat.le_of_eq (by rw [hw.length_chained, hs.calls])
  have hne : Chain.promise chained call ≠ .chained s.calls.length := by
    intro heq
    rw [heq, hnone] at hbefore
    split at hbefore <;> cases hbefore
  have hcreated : (s.runtime.create (.chained s.calls.length)).promises (Chain.promise chained call) =
      s.runtime.promises (Chain.promise chained call) := Function.update_of_ne hne _ _
  rw [hbefore] at hcreated
  rw [Chain.promises_append hw hcall h, ← hs.calls, ← hs.promises]
  cases hcase : chain.outcomes[call]? with
  | some outcome =>
    rw [hcase] at hcreated
    rw [Runtime.subscribe_settled hcreated]
    rw [Runtime.subscribe_pending (Function.update_self _ _ _)]
    simp [Runtime.put, Runtime.enqueue, Runtime.create]
  | none =>
    rw [hcase] at hcreated
    rw [Runtime.subscribe_pending hcreated]
    have hchained : ((s.runtime.create (.chained s.calls.length)).put (Chain.promise chained call)
        (.pending (chain.waiters call (Chain.promise chained call) ++
          [fun _ => .write s.calls.length session]))).promises (.chained s.calls.length) =
        some (.pending []) := by
      rw [Runtime.put_promises, Function.update_of_ne hne.symm]
      exact Function.update_self _ _ _
    rw [Runtime.subscribe_pending hchained]
    simp only [Runtime.put, Runtime.create, List.nil_append, List.append_nil]
    rw [Function.update_comm hne, Function.update_idem, Function.update_comm hne.symm]

/-- The write of the new call is the job that continues the chain, where the call before has its outcome. -/
theorem Chain.control_append {calls : List S} (chain : Chain S) (hcalls : calls = chain.calls) {call : Nat}
    (hcall : call + 1 = chain.calls.length)
    (hle : chain.outcomes.length ≤ chain.issued ∧ chain.issued ≤ chain.outcomes.length + 1)
    (hfits : chain.issued ≤ chain.calls.length)
    : chain.control ++ (match chain.outcomes[call]? with
        | some _ => [Job.write calls.length session]
        | none => []).filter Job.isControl = (chain.append session true chain.current).control := by
  subst hcalls
  cases hcase : chain.outcomes[call]? with
  | some outcome =>
    have hlt : call < chain.outcomes.length := (List.getElem?_eq_some_iff.mp hcase).1
    have hlast : chain.outcomes.length = chain.calls.length := by omega
    have hidle : chain.current = .idle := by
      rw [issued.eq_def] at hfits
      split at hfits
      . assumption
      . omega
    simp only [control, hidle, hlast, append]
    simp [Job.isControl]
  | none =>
    have hge : chain.outcomes.length ≤ call := List.getElem?_eq_none_iff.mp hcase
    have hkept : (chain.calls ++ [session])[chain.outcomes.length]? = chain.calls[chain.outcomes.length]? :=
      List.getElem?_append_left (by omega)
    simp only [List.filter_nil, List.append_nil, control, append, hkept]

theorem Chains.save_some {before : PromiseId} (hs : Chains chain s) (h : s.pending = some before)
    : Chains (chain.append session true chain.current) (s.save session) := by
  obtain ⟨call, chained, hcall, hchained, rfl⟩ := hs.last h
  have hw := hs.wellFormed
  rw [SessionWriter.save_some h, hs.runtime_save hcall hchained]
  have hle := chain.length_outcomes_le
  have hfits := hw.issued_le
  constructor
  case wellFormed => exact Chain.wellFormed_append hw hcall
  case calls => rw [hs.calls, Chain.append]
  case returned => simp [Chain.append, hs.returned, Chain.promise, hw.length_chained, hs.calls]
  case issued =>
    have happend : (chain.calls ++ [session]).take chain.issued = chain.calls.take chain.issued :=
      List.take_append_of_le_length hfits
    rw [hs.issued, ← happend]
    rfl
  case promises => rfl
  case control =>
    rw [List.filter_append, hs.control]
    exact chain.control_append hs.calls hcall hle hfits
  case finished =>
    intro promise hmem
    have hmem : .finished promise ∈ s.runtime.jobs := by
      rcases List.mem_append.mp hmem with hmem | hmem
      . exact hmem
      . split at hmem <;> simp at hmem
    obtain ⟨call, hcall, hreturned⟩ := hs.finished promise hmem
    refine ⟨call, hcall, ?_⟩
    rw [List.getElem?_append_left (lt_length hreturned), hreturned]
  case pending_none => nofun
  case pending_some => simp

end Call

section Settlement

/-- Of the promises that the store has given, only the one of the current write can be pending. -/
theorem Chains.inProgress_iff (hs : Chains chain s) {call : Nat}
    : InProgress s call ↔ call = chain.outcomes.length ∧
        (chain.current = .direct ∨ chain.current = .unfollowed none ∨ chain.current = .followed) := by
  rw [InProgress, hs.promises]
  simp only [Chain.promises]
  split
  . next outcome h =>
    have hlt := (List.getElem?_eq_some_iff.mp h).1
    constructor
    . rintro ⟨_, ⟨⟩⟩
    . rintro ⟨rfl, -⟩
      exact absurd hlt (Nat.lt_irrefl _)
  . split
    . next heq =>
      rw [Chain.currentPromise.eq_def]
      cases chain.current with
      | unfollowed completed => cases completed <;> simp [heq]
      | _ => simp [heq]
    . next hne => simp [hne]

/-- The first call that is not answered gets its outcome. -/
def Chain.answer (chain : Chain S) (outcome : Outcome) : Chain S where
  calls := chain.calls
  chained := chain.chained
  outcomes := chain.outcomes ++ [outcome]
  current := .idle

theorem Chain.wellFormed_answer (hw : chain.WellFormed) (hcurrent : chain.current ≠ .idle) (outcome : Outcome)
    : (chain.answer outcome).WellFormed ∧ (chain.answer outcome).issued = chain.issued := by
  have hissued : (chain.answer outcome).issued = chain.issued := by
    rw [issued, issued.eq_def chain]
    simp only [answer, List.length_append, List.length_singleton]
  refine ⟨⟨hw.length_chained, ?_, ?_, ?_, trivial⟩, hissued⟩
  . rw [hissued]
    exact hw.issued_le
  . rw [hissued]
    exact hw.issued_pos
  . rw [hissued]
    exact hw.waiting

/-- The promises after the answer. The promise of the store has its outcome before. -/
theorem Chain.promises_answer {chained : Bool} {outcome : Outcome}
    (h : chain.chained[chain.outcomes.length]? = some chained)
    (hcurrent : chain.current = if chained then .adopting outcome else .direct)
    : (chain.answer outcome).promises = Function.update chain.promises
        (promise chained chain.outcomes.length) (some (.settled outcome)) := by
  have hanswers (k : Nat) : (chain.outcomes ++ [outcome])[k]? =
      if k = chain.outcomes.length then some outcome else chain.outcomes[k]? := by
    rw [List.getElem?_append]
    split
    . next hlt => rw [if_neg (Nat.ne_of_lt hlt)]
    . next hge =>
      split
      . next heq => simp [heq]
      . rw [List.getElem?_eq_none (by simp; omega), List.getElem?_eq_none (by omega)]
  funext other
  cases other with
  | written k =>
    rw [promises, answer, hanswers]
    by_cases hk : k = chain.outcomes.length
    . subst hk
      rw [if_pos rfl]
      cases chained with
      | false => simp [promise]
      | true =>
        rw [Function.update_of_ne (by simp [promise]), promises]
        simp [currentPromise, hcurrent]
    . have hne : PromiseId.written k ≠ promise chained chain.outcomes.length := by
        cases chained <;> simp [promise, hk]
      rw [if_neg hk, Function.update_of_ne hne, promises]
      cases chain.outcomes[k]? with
      | some outcome => rfl
      | none => simp [hk, currentPromise]
  | chained k =>
    rw [promises, answer, hanswers]
    by_cases hk : k = chain.outcomes.length
    . subst hk
      cases chained with
      | true =>
        rw [h, if_pos rfl, if_pos rfl]
        simp [promise]
      | false =>
        rw [Function.update_of_ne (by simp [promise]), promises, h]
        simp
    . have hne : PromiseId.chained k ≠ promise chained chain.outcomes.length := by
        cases chained <;> simp [promise, hk]
      rw [if_neg hk, Function.update_of_ne hne, promises]
      rfl

theorem Chain.length_lt (hw : chain.WellFormed) (hcurrent : chain.current ≠ .idle)
    : chain.outcomes.length < chain.calls.length := by
  have hle := hw.issued_le
  rw [issued.eq_def] at hle
  split at hle
  . next h => exact absurd h hcurrent
  . exact hle

/-- The answer to the first call settles its promise. -/
theorem Chains.answer (hs : Chains chain s) {chained : Bool} {outcome : Outcome} {jobs : List (Job S)}
    (h : chain.chained[chain.outcomes.length]? = some chained)
    (hcurrent : chain.current = if chained then .adopting outcome else .direct)
    (hjobs : ∀ promise, .finished promise ∈ jobs → .finished promise ∈ s.runtime.jobs)
    (hcontrol : jobs.filter Job.isControl = [])
    : Chains (chain.answer outcome) { s with
        runtime := ({ s.runtime with jobs := jobs }).settle
          (Chain.promise chained chain.outcomes.length) outcome } := by
  have hw := hs.wellFormed
  have hidle : chain.current ≠ .idle := by
    rw [hcurrent]
    cases chained <;> simp
  have hlt := Chain.length_lt hw hidle
  have hpending := Chain.promises_promise hw h
  rw [List.getElem?_eq_none (Nat.le_refl _), ← hs.promises] at hpending
  obtain ⟨hanswered, hissued⟩ := Chain.wellFormed_answer hw hidle outcome
  have hreturned : s.returned[chain.outcomes.length]? =
      some (Chain.promise chained chain.outcomes.length) := by
    rw [hs.returned, List.getElem?_mapIdx, h]
    rfl
  rw [@Runtime.settle_pending _ _ _ _ { s.runtime with jobs := jobs } _ _ outcome hpending]
  constructor
  case wellFormed => exact hanswered
  case calls => exact hs.calls
  case returned => exact hs.returned
  case issued =>
    rw [hissued]
    exact hs.issued
  case promises => rw [Chain.promises_answer h hcurrent, ← hs.promises]
  case control =>
    rw [List.filter_append, hcontrol]
    cases hcalls : chain.calls[chain.outcomes.length + 1]? <;>
      simp [Chain.waiters, Chain.control, Chain.answer, Job.isControl, hcalls]
  case finished =>
    intro promise hmem
    rcases List.mem_append.mp hmem with hmem | hmem
    . obtain ⟨call, hcall, hreturned⟩ := hs.finished promise (hjobs promise hmem)
      refine ⟨call, ?_, hreturned⟩
      rw [Chain.answer, List.length_append]
      omega
    . refine ⟨chain.outcomes.length, by simp [Chain.answer], ?_⟩
      obtain rfl : promise = Chain.promise chained chain.outcomes.length := by
        simpa [Chain.waiters] using hmem
      exact hreturned
  case pending_none =>
    intro hnone
    have hlength := hs.pending_none hnone
    omega
  case pending_some => exact hs.pending_some

/-- The phases in which the promise of the store is followed, and what it is in them. -/
theorem Chain.promises_current (chain : Chain S) (current : Current)
    : ({ chain with current := current } : Chain S).promises = fun promise =>
        if promise = .written chain.outcomes.length then
          ({ chain with current := current } : Chain S).currentPromise chain.outcomes.length
        else chain.promises promise := by
  funext promise
  cases promise with
  | written k =>
    rw [promises, promises]
    by_cases hk : k = chain.outcomes.length
    . subst hk
      simp
    . have hne : PromiseId.written k ≠ .written chain.outcomes.length := by simpa using hk
      rw [if_neg hne, if_neg hk, if_neg hk]
  | chained k =>
    rw [if_neg nofun]
    rfl

def Current.isChained : Current → Bool
  | .idle => false
  | .direct => false
  | _ => true

theorem Chain.wellFormed_current (hw : chain.WellFormed) {current : Current}
    (hchained : current.isChained = true) (hcurrent : chain.current ≠ .direct)
    (hlt : chain.outcomes.length < chain.calls.length)
    : ({ chain with current := current } : Chain S).WellFormed := by
  have hissued : ({ chain with current := current } : Chain S).issued = chain.outcomes.length + 1 := by
    cases current with
    | idle => cases hchained
    | _ => rfl
  have hle := chain.length_outcomes_le
  constructor
  . exact hw.length_chained
  . rw [hissued]
    exact hlt
  . rw [hissued]
    exact fun _ => Nat.succ_pos _
  . rw [hissued]
    intro call hcall hlength
    exact hw.waiting call (by omega) hlength
  . have htrue : chain.chained[chain.outcomes.length]? = some true := by
      by_cases hidle : chain.current = .idle
      . exact hw.waiting _ (Nat.le_of_eq (by rw [issued, hidle])) hlt
      . have h := hw.current
        split at h
        . next heq => exact absurd heq hidle
        . next heq => exact absurd heq hcurrent
        . exact h
    cases current with
    | idle => trivial
    | direct => cases hchained
    | _ => exact htrue

/-- The current write comes one phase further, with the promise of the store that the phase has. -/
theorem Chains.advance {s' : State S} (hs : Chains chain s) {current : Current}
    (hchained : current.isChained = true) (hcurrent : chain.current ≠ .direct)
    (hlt : chain.outcomes.length < chain.calls.length)
    (hsame : s'.calls = s.calls ∧ s'.returned = s.returned ∧ s'.pending = s.pending)
    (hissued : s'.issued = chain.calls.take (chain.outcomes.length + 1))
    (hpromises : s'.runtime.promises = Function.update s.runtime.promises (.written chain.outcomes.length)
      (({ chain with current := current } : Chain S).currentPromise chain.outcomes.length))
    (hcontrol : s'.runtime.jobs.filter Job.isControl = ({ chain with current := current } : Chain S).control)
    (hjobs : ∀ promise, .finished promise ∈ s'.runtime.jobs → .finished promise ∈ s.runtime.jobs)
    : Chains { chain with current := current } s' := by
  obtain ⟨hcalls, hreturned, hpending⟩ := hsame
  constructor
  case wellFormed => exact Chain.wellFormed_current hs.wellFormed hchained hcurrent hlt
  case calls => exact hcalls.trans hs.calls
  case returned => exact hreturned.trans hs.returned
  case issued =>
    rw [hissued]
    cases current with
    | idle => cases hchained
    | _ => rfl
  case promises =>
    rw [hpromises, Chain.promises_current, hs.promises]
    funext promise
    rw [Function.update_apply]
  case control => exact hcontrol
  case finished =>
    intro promise hmem
    rw [hreturned]
    exact hs.finished promise (hjobs promise hmem)
  case pending_none => exact fun h => hs.pending_none (hpending ▸ h)
  case pending_some =>
    rw [hreturned, hpending]
    exact hs.pending_some

theorem Chains.issued_of_ne (hs : Chains chain s) (hcurrent : chain.current ≠ .idle)
    : s.issued = chain.calls.take (chain.outcomes.length + 1) := by
  rw [hs.issued, Chain.issued.eq_def]
  split
  . next h => exact absurd h hcurrent
  . rfl

theorem Chains.promises_written (hs : Chains chain s)
    : s.runtime.promises (.written chain.outcomes.length) = chain.currentPromise chain.outcomes.length := by
  rw [hs.promises, Chain.promises, List.getElem?_eq_none (Nat.le_refl _)]
  exact if_pos rfl

theorem Chains.complete (hs : Chains chain s) {call : Nat} (outcome : Outcome) (h : InProgress s call)
    : ∃ chain', Chains chain' { s with runtime := s.runtime.settle (.written call) outcome } := by
  obtain ⟨rfl, hcurrent⟩ := hs.inProgress_iff.mp h
  have hcontrol := hs.control
  have hwritten := hs.promises_written
  rw [Chain.currentPromise] at hwritten
  rcases hcurrent with hcurrent | hcurrent | hcurrent
  . have hchained := hs.wellFormed.current
    rw [hcurrent] at hchained
    refine ⟨_, @Chains.answer _ _ _ hs false outcome _ hchained hcurrent (fun _ h => h) ?_⟩
    rw [hcontrol, Chain.control, hcurrent]
  . rw [hcurrent] at hwritten
    refine ⟨_, @Chains.advance _ _ _ _ hs (.unfollowed (some outcome)) rfl (by simp [hcurrent])
      (Chain.length_lt hs.wellFormed (by simp [hcurrent])) ⟨rfl, rfl, rfl⟩
      (hs.issued_of_ne (by simp [hcurrent])) ?_ ?_ ?_⟩
    . rw [Runtime.settle_pending hwritten]
      rfl
    . rw [Runtime.settle_pending hwritten, List.map_nil, List.append_nil, hcontrol, Chain.control, hcurrent]
      rfl
    . rw [Runtime.settle_pending hwritten, List.map_nil, List.append_nil]
      exact fun _ h => h
  . rw [hcurrent] at hwritten
    refine ⟨_, @Chains.advance _ _ _ _ hs (.adopting outcome) rfl (by simp [hcurrent])
      (Chain.length_lt hs.wellFormed (by simp [hcurrent])) ⟨rfl, rfl, rfl⟩
      (hs.issued_of_ne (by simp [hcurrent])) ?_ ?_ ?_⟩
    . rw [Runtime.settle_pending hwritten]
      rfl
    . rw [Runtime.settle_pending hwritten, List.filter_append, hcontrol, Chain.control, hcurrent]
      rfl
    . rw [Runtime.settle_pending hwritten]
      simp

/-- One job at most continues the chain, and which one is said by the phase. -/
theorem Chains.control_cases (hs : Chains chain s) {job : Job S} {rest : List (Job S)}
    (h : s.runtime.jobs = job :: rest) (hjob : job.isControl = true)
    : rest.filter Job.isControl = [] ∧
        ((∃ session, chain.current = .idle ∧ chain.calls[chain.outcomes.length]? = some session ∧
            job = .write chain.outcomes.length session) ∨
          (∃ completed, chain.current = .unfollowed completed ∧ job = .follow chain.outcomes.length) ∨
          ∃ outcome, chain.current = .adopting outcome ∧ job = .adopt chain.outcomes.length outcome) := by
  have hcons : chain.control = job :: rest.filter Job.isControl := by
    rw [← hs.control, h, List.filter_cons_of_pos hjob]
  rw [Chain.control] at hcons
  cases hcurrent : chain.current with
  | idle =>
    rw [hcurrent] at hcons
    cases hcalls : chain.calls[chain.outcomes.length]? with
    | none => simp [hcalls] at hcons
    | some session =>
      simp only [hcalls, Option.toList_some, List.map_cons, List.map_nil, List.cons.injEq] at hcons
      exact ⟨hcons.2.symm, .inl ⟨session, rfl, rfl, hcons.1.symm⟩⟩
  | unfollowed completed =>
    simp only [hcurrent, List.cons.injEq] at hcons
    exact ⟨hcons.2.symm, .inr (.inl ⟨completed, rfl, hcons.1.symm⟩)⟩
  | adopting outcome =>
    simp only [hcurrent, List.cons.injEq] at hcons
    exact ⟨hcons.2.symm, .inr (.inr ⟨outcome, rfl, hcons.1.symm⟩)⟩
  | _ => simp [hcurrent] at hcons

section Jobs

variable {rest : List (Job S)}

theorem mem_of_cons {job : Job S} (h : s.runtime.jobs = job :: rest) {promise : PromiseId}
    (hmem : .finished promise ∈ rest)
    : .finished promise ∈ s.runtime.jobs := by
  rw [h]
  exact List.mem_cons_of_mem _ hmem

theorem Chains.write (hs : Chains chain s) (hidle : chain.current = .idle)
    (hcalls : chain.calls[chain.outcomes.length]? = some session)
    (h : s.runtime.jobs = .write chain.outcomes.length session :: rest)
    (hrest : rest.filter Job.isControl = [])
    : Chains { chain with current := .unfollowed none }
        ({ s with runtime := { s.runtime with jobs := rest } }.runJob
          (.write chain.outcomes.length session)) := by
  obtain ⟨hlt, -⟩ := List.getElem?_eq_some_iff.mp hcalls
  refine @Chains.advance _ _ _ _ hs (.unfollowed none) rfl (by simp [hidle]) hlt ⟨rfl, rfl, rfl⟩ ?_ ?_ ?_ ?_
  . simp only [State.runJob, State.storeSave, hs.issued, Chain.issued, hidle]
    rw [List.take_add_one, hcalls]
    rfl
  . rfl
  . simp only [State.runJob, State.storeSave, Runtime.create, Runtime.put, Runtime.enqueue,
      List.filter_append, hrest]
    rfl
  . intro promise hmem
    apply mem_of_cons h
    simpa [State.runJob, State.storeSave, Runtime.create, Runtime.put, Runtime.enqueue] using hmem

theorem Chains.follow (hs : Chains chain s) {completed : Option Outcome}
    (hunfollowed : chain.current = .unfollowed completed)
    (h : s.runtime.jobs = .follow chain.outcomes.length :: rest)
    (hrest : rest.filter Job.isControl = [])
    : ∃ chain', Chains chain' ({ s with runtime := { s.runtime with jobs := rest } }.runJob
        (.follow chain.outcomes.length)) := by
  have hwritten := hs.promises_written
  rw [Chain.currentPromise, hunfollowed] at hwritten
  have hlt := Chain.length_lt hs.wellFormed (by simp [hunfollowed])
  have hissued := hs.issued_of_ne (by simp [hunfollowed])
  have hdirect : chain.current ≠ .direct := by simp [hunfollowed]
  cases completed with
  | none =>
    have hsubscribe := @Runtime.subscribe_pending _ _ _ _ { s.runtime with jobs := rest } _ _
      (.adopt chain.outcomes.length) hwritten
    refine ⟨_, @Chains.advance _ _ _ _ hs .followed rfl hdirect hlt ⟨rfl, rfl, rfl⟩ hissued ?_ ?_ ?_⟩
    . simp only [State.runJob, hsubscribe]
      rfl
    . simp only [State.runJob, hsubscribe, Runtime.put_jobs, hrest]
      rfl
    . simp only [State.runJob, hsubscribe, Runtime.put_jobs]
      exact fun _ => mem_of_cons h
  | some outcome =>
    have hsubscribe := @Runtime.subscribe_settled _ _ _ _ { s.runtime with jobs := rest } _
      (.adopt chain.outcomes.length) _ hwritten
    refine ⟨_, @Chains.advance _ _ _ _ hs (.adopting outcome) rfl hdirect hlt ⟨rfl, rfl, rfl⟩ hissued ?_ ?_ ?_⟩
    . simp only [State.runJob, hsubscribe, Runtime.enqueue]
      exact (Function.update_eq_self_iff.mpr hwritten.symm).symm
    . simp only [State.runJob, hsubscribe, Runtime.enqueue, List.filter_append, hrest]
      rfl
    . simp only [State.runJob, hsubscribe, Runtime.enqueue]
      intro promise hmem
      apply mem_of_cons h
      simpa using hmem

theorem Chains.adopt (hs : Chains chain s) {outcome : Outcome} (hadopting : chain.current = .adopting outcome)
    (h : s.runtime.jobs = .adopt chain.outcomes.length outcome :: rest)
    (hrest : rest.filter Job.isControl = [])
    : Chains (chain.answer outcome) ({ s with runtime := { s.runtime with jobs := rest } }.runJob
        (.adopt chain.outcomes.length outcome)) := by
  have hchained := hs.wellFormed.current
  rw [hadopting] at hchained
  exact hs.answer hchained hadopting (fun _ => mem_of_cons h) hrest

/-- A cleanup clears the field only when nothing waits any more. -/
theorem Chains.cleanup (hs : Chains chain s) {promise : PromiseId}
    (h : s.runtime.jobs = .finished promise :: rest)
    : Chains chain ({ s with runtime := { s.runtime with jobs := rest } }.runJob (.finished promise)) := by
  obtain ⟨call, hcall, hreturned⟩ := hs.finished promise (h ▸ List.mem_cons_self)
  have hcontrol : rest.filter Job.isControl = chain.control := by
    rw [← hs.control, h]
    rfl
  rw [State.runJob]
  split
  . next heq =>
    have hlast := hs.pending_some promise heq
    rw [List.getLast?_eq_getElem?] at hlast
    obtain ⟨chained, -, hpromise⟩ := hs.exists_chained hlast
    obtain ⟨chained', -, hpromise'⟩ := hs.exists_chained hreturned
    have hindex := Chain.promise_inj (hpromise.symm.trans hpromise')
    have hlength := hs.length_returned
    have hle := Nat.le_trans chain.length_outcomes_le.1 hs.wellFormed.issued_le
    rw [hs.calls] at hlength
    refine ⟨hs.wellFormed, hs.calls, hs.returned, hs.issued, hs.promises, hcontrol,
      fun p hp => hs.finished p (mem_of_cons h hp), fun _ => ?_, nofun⟩
    omega
  . exact ⟨hs.wellFormed, hs.calls, hs.returned, hs.issued, hs.promises, hcontrol,
      fun p hp => hs.finished p (mem_of_cons h hp), hs.pending_none, hs.pending_some⟩

end Jobs

end Settlement

theorem Chains.step {s' : State S} (hs : Chains chain s) (h : Step s s')
    : ∃ chain', Chains chain' s' := by
  cases h with
  | call session =>
    cases hpending : s.pending with
    | none => exact ⟨_, hs.save_none hpending⟩
    | some before => exact ⟨_, hs.save_some hpending⟩
  | complete call outcome h => exact hs.complete outcome h
  | job job rest h =>
    cases job with
    | finished promise => exact ⟨_, hs.cleanup h⟩
    | write call session =>
      obtain ⟨hrest, ⟨_, hidle, hcalls, ⟨⟩⟩ | ⟨_, -, ⟨⟩⟩ | ⟨_, -, ⟨⟩⟩⟩ := hs.control_cases h rfl
      exact ⟨_, hs.write hidle hcalls h hrest⟩
    | follow call =>
      obtain ⟨hrest, ⟨_, -, -, ⟨⟩⟩ | ⟨_, hunfollowed, ⟨⟩⟩ | ⟨_, -, ⟨⟩⟩⟩ := hs.control_cases h rfl
      exact hs.follow hunfollowed h hrest
    | adopt call outcome =>
      obtain ⟨hrest, ⟨_, -, -, ⟨⟩⟩ | ⟨_, -, ⟨⟩⟩ | ⟨_, hadopting, ⟨⟩⟩⟩ := hs.control_cases h rfl
      exact ⟨_, hs.adopt hadopting h hrest⟩

end SessionWriter
end Documents
end OpenMat
