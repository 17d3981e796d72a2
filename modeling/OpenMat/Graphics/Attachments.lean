import OpenMat.Graphics.Registry

/-!
This module contains what holds of the attachments and their leases over whole runs of the session registry.
-/

namespace OpenMat
namespace Graphics

open Std

/-- The leases of an entry that the hub has granted, for the buffers of a given kind. -/
def acquisitions (entry : Nat) (p : String → Bool) (calls : List HubCall) : Nat :=
  calls.countP fun
    | .acquire e bufferId => e == entry && p bufferId
    | .release .. => false

def releases (entry : Nat) (p : String → Bool) (calls : List HubCall) : Nat :=
  calls.countP fun
    | .acquire .. => false
    | .release e bufferId _ => e == entry && p bufferId

/-- The hub of the entry has released every lease that it was asked to release. -/
def Reliable (entry : Nat) (calls : List HubCall) : Prop :=
  ∀ bufferId succeeded, .release entry bufferId succeeded ∈ calls → succeeded = true

def GraphicsAttachment.leases (entry : Nat) (p : String → Bool) (attachment : GraphicsAttachment) : Nat :=
  if attachment.entry = entry then (attachment.leasedBuffers.filter fun b => p b).card else 0

namespace GraphicsAttachment

variable {a : GraphicsAttachment} {bufferId : String}

theorem getBuffer_error {e : GraphicsHubError}
    : a.getBuffer bufferId (.error e) = (a, .error e, []) := by
  by_cases h : bufferId ∈ a.leasedBuffers
  . simp [getBuffer, h]
  . simp [getBuffer, h]

theorem getBuffer_of_mem (h : bufferId ∈ a.leasedBuffers) {buffer : GraphicsBuffer}
    : a.getBuffer bufferId (.ok buffer) = (a, .ok (buffer, false), []) := by
  simp [getBuffer, h]

theorem getBuffer_of_notMem (h : bufferId ∉ a.leasedBuffers) {buffer : GraphicsBuffer}
    : a.getBuffer bufferId (.ok buffer)
        = ({ a with leasedBuffers := insert bufferId a.leasedBuffers }, .ok (buffer, true),
            [.acquire a.entry bufferId]) := by
  simp [getBuffer, h]

theorem releaseBuffer_of_mem (h : bufferId ∈ a.leasedBuffers) {outcome : BufferLeaseRelease}
    : a.releaseBuffer bufferId (.ok outcome)
        = ({ a with leasedBuffers := a.leasedBuffers.erase bufferId }, .ok (true, outcome),
            [.release a.entry bufferId true]) := by
  simp [releaseBuffer, h]

theorem releaseBuffer_of_notMem (h : bufferId ∉ a.leasedBuffers)
    {hub : Except GraphicsHubError BufferLeaseRelease}
    : a.releaseBuffer bufferId hub = (a, .ok (false, ⟨false⟩), []) := by
  simp [releaseBuffer, h]

theorem releaseBuffer_error (h : bufferId ∈ a.leasedBuffers) {e : GraphicsHubError}
    : a.releaseBuffer bufferId (.error e) = (a, .error e, [.release a.entry bufferId false]) := by
  simp [releaseBuffer, h]

/-- Where a buffer is added to the leases, the hub has granted one lease. -/
theorem leases_insert (h : bufferId ∉ a.leasedBuffers)
    (entry : Nat) (p : String → Bool)
    : a.leases entry p + acquisitions entry p [.acquire a.entry bufferId]
        = { a with leasedBuffers := insert bufferId a.leasedBuffers }.leases entry p := by
  have hfilter : bufferId ∉ a.leasedBuffers.filter fun b => p b := by
    rw [Finset.mem_filter]
    exact fun hmem => h hmem.1
  rw [leases, leases, acquisitions, Finset.filter_insert]
  by_cases hentry : a.entry = entry
  . cases hp : p bufferId with
    | false => simp [hentry, hp]
    | true => simp [hentry, hp, hfilter]
  . simp [hentry]

theorem leases_erase (h : bufferId ∈ a.leasedBuffers)
    (entry : Nat) (p : String → Bool) (succeeded : Bool)
    : a.leases entry p
        = { a with leasedBuffers := a.leasedBuffers.erase bufferId }.leases entry p
          + releases entry p [.release a.entry bufferId succeeded] := by
  have hadd := leases_insert (a := { a with leasedBuffers := a.leasedBuffers.erase bufferId })
    (Finset.notMem_erase bufferId a.leasedBuffers) entry p
  simp only [Finset.insert_erase h] at hadd
  exact hadd.symm

/-- A dropped attachment releases every buffer that it has leased. -/
theorem leases_drain (a : GraphicsAttachment) (hub : String → Except GraphicsHubError BufferLeaseRelease)
    (entry : Nat) (p : String → Bool)
    : a.leases entry p = releases entry p (a.drain hub) := by
  rw [leases, releases, drain, List.countP_map]
  by_cases hentry : a.entry = entry
  . have hcount : (a.leasedBuffers.sort (· ≤ ·)).countP p = (a.leasedBuffers.filter fun b => p b).card := by
      rw [Finset.card, Finset.filter_val, ← Multiset.countP_eq_card_filter,
        ← Finset.sort_eq a.leasedBuffers (· ≤ ·), Multiset.coe_countP]
      simp
    simp [hentry, ← hcount, Function.comp_def]
  . rw [if_neg hentry, eq_comm, List.countP_eq_zero]
    simp [hentry]

theorem acquisitions_drain (a : GraphicsAttachment)
    (hub : String → Except GraphicsHubError BufferLeaseRelease) (entry : Nat) (p : String → Bool)
    : acquisitions entry p (a.drain hub) = 0 := by
  rw [acquisitions, drain, List.countP_map, List.countP_eq_zero]
  intro bufferId _
  exact Bool.false_ne_true

end GraphicsAttachment

namespace GraphicsSessions

/-- The leased buffers of all attachments of an entry. -/
def leases (entry : Nat) (p : String → Bool) (s : GraphicsSessions) : Nat :=
  (s.attachments.map fun attachment => (attachment.map (GraphicsAttachment.leases entry p)).getD 0).sum

/-- Whether the attachment at a position exists and is live. -/
def Live (s : GraphicsSessions) (i : Nat) : Prop :=
  ∃ attachment entry,
    s.attachment? i = some attachment
      ∧
    s.entries[attachment.entry]? = some entry
      ∧
    attachment.isLive entry.state

/-- Every client has an identifier of its own, none is ahead of the generation of its entry, and the
sessions that are alive can be looked up. -/
structure Consistent (s : GraphicsSessions) : Prop where
  entry : ∀ i a, s.attachment? i = some a → ∃ e,
    s.entries[a.entry]? = some e ∧ a.clientId < e.state.nextClient
      ∧ a.tokenGeneration ≤ e.state.tokenGeneration
  clientId : ∀ i j a b, s.attachment? i = some a → s.attachment? j = some b →
    a.entry = b.entry → a.clientId = b.clientId → i = j
  session : ∀ (k : Nat) e, s.entries[k]? = some e → e.state.alive → s.sessions[e.sessionId]? = some k

/-- What an operation does to the sessions and asks of the hubs. -/
inductive Changes (s : GraphicsSessions) : GraphicsSessions → List HubCall → Prop where
  | same : Changes s s []
  | registered (entry : RegistryEntry) (hfresh : s.sessions[entry.sessionId]? = none)
      : Changes s
          ⟨s.sessions.insert entry.sessionId s.entries.length, s.entries ++ [entry], s.attachments⟩ []
  | updated (sessions : TreeMap String Nat) (i : Nat) (entry : RegistryEntry) (state : EntryState)
      (hentry : s.entries[i]? = some entry)
      (hnext : entry.state.nextClient = state.nextClient)
      (hgeneration : entry.state.tokenGeneration ≤ state.tokenGeneration)
      (halive : state.alive → entry.state.alive)
      (hsessions : ∀ id : String,
        sessions[id]? = s.sessions[id]? ∨ (s.sessions[id]? = some i ∧ ¬state.alive))
      : Changes s { s.setState i state with sessions := sessions } []
  | attached (i : Nat) (entry : RegistryEntry) (state : EntryState)
      (hentry : s.entries[i]? = some entry)
      (hnext : entry.state.nextClient + 1 = state.nextClient)
      (hgeneration : entry.state.tokenGeneration = state.tokenGeneration)
      (halive : state.alive → entry.state.alive)
      : Changes s
          { s.setState i state with
            attachments := s.attachments
              ++ [some ⟨i, entry.state.nextClient, entry.state.tokenGeneration, ∅⟩] }
          []
  | leased (i : Nat) (a : GraphicsAttachment) (buffers : Finset String) (calls : List HubCall)
      (hattachment : s.attachment? i = some a)
      (hbalance : ∀ entry p, Reliable entry calls →
        a.leases entry p + acquisitions entry p calls
          = { a with leasedBuffers := buffers }.leases entry p + releases entry p calls)
      : Changes s (s.setAttachment i (some { a with leasedBuffers := buffers })) calls
  | dropped (i : Nat) (a : GraphicsAttachment) (entries : List RegistryEntry) (calls : List HubCall)
      (hattachment : s.attachment? i = some a)
      (hentries : ∀ k : Nat, entries[k]? = (s.entries[k]?).map fun e =>
        if k = a.entry then { e with state := a.dropped e.state } else e)
      (hbalance : ∀ entry p, a.leases entry p = releases entry p calls)
      (hcalls : ∀ entry p, acquisitions entry p calls = 0)
      : Changes s { s.setAttachment i none with entries := entries } calls

section Lookups

variable {s : GraphicsSessions} {i k : Nat} {state : EntryState} {a : GraphicsAttachment}

theorem getElem?_setState
    : (s.setState i state).entries[k]?
        = (s.entries[k]?).map fun e => if i = k then { e with state := state } else e := by
  rw [setState]
  simp only [List.getElem?_modify]
  split <;> rfl

theorem attachment?_eq_some_iff
    : s.attachment? i = some a ↔ s.attachments[i]? = some (some a) := by
  rw [attachment?, Option.join_eq_some_iff]

theorem lt_length_of_attachment? (h : s.attachment? i = some a)
    : i < s.attachments.length := by
  rw [attachment?_eq_some_iff] at h
  exact (List.getElem?_eq_some_iff.mp h).1

theorem attachment?_setAttachment (hi : i < s.attachments.length) {attachment : Option GraphicsAttachment}
    : (s.setAttachment i attachment).attachment? k = if i = k then attachment else s.attachment? k := by
  rw [attachment?, setAttachment]
  simp only [List.getElem?_set]
  split
  . rfl
  . rfl

theorem setAttachment_self (h : s.attachment? i = some a)
    : s.setAttachment i (some a) = s := by
  have hi := lt_length_of_attachment? h
  rw [attachment?_eq_some_iff, List.getElem?_eq_some_iff] at h
  obtain ⟨_, h⟩ := h
  rw [setAttachment, ← h, List.set_getElem_self]

theorem sum_set_add {l : List Nat} {i b : Nat} (hi : i < l.length)
    : (l.set i b).sum + l[i] = l.sum + b := by
  induction l generalizing i with
  | nil => cases hi
  | cons a l ih =>
    cases i with
    | zero =>
      rw [List.set_cons_zero, List.sum_cons, List.sum_cons, List.getElem_cons_zero]
      omega
    | succ i =>
      have hrest := ih (Nat.lt_of_succ_lt_succ hi)
      rw [List.set_cons_succ, List.sum_cons, List.sum_cons, List.getElem_cons_succ]
      omega

theorem leases_setAttachment (h : s.attachment? i = some a) (attachment : Option GraphicsAttachment)
    (entry : Nat) (p : String → Bool)
    : (s.setAttachment i attachment).leases entry p + a.leases entry p
        = s.leases entry p + (attachment.map (GraphicsAttachment.leases entry p)).getD 0 := by
  rw [attachment?_eq_some_iff, List.getElem?_eq_some_iff] at h
  obtain ⟨hi, h⟩ := h
  rw [leases, leases, setAttachment]
  simp only [List.map_set]
  have hsum := sum_set_add (l := s.attachments.map fun attachment =>
    (attachment.map (GraphicsAttachment.leases entry p)).getD 0)
    (b := (attachment.map (GraphicsAttachment.leases entry p)).getD 0) (i := i) (by rw [List.length_map]; exact hi)
  rw [List.getElem_map, h] at hsum
  exact hsum

end Lookups

section Steps

variable {s : GraphicsSessions}

theorem changes_registerSession (sessionId : String) (token : Except String SecretToken)
    : s.Changes (s.registerSession sessionId token).1 (s.registerSession sessionId token).2.2 := by
  rw [registerSession.eq_def]
  split
  . exact .same
  . split
    . exact .same
    . next token =>
      split
      . exact .same
      . next hcontains =>
        exact .registered ⟨sessionId, .new token⟩ (Table.getElem?_eq_none_of_not_contains hcontains)

theorem changes_unregisterSession (i : Nat)
    : s.Changes (s.unregisterSession i).1 (s.unregisterSession i).2.2 := by
  rw [unregisterSession]
  split
  . exact .same
  . next entry hentry =>
    split
    . exact .same
    . simp only
      split
      . next hsame =>
        refine .updated _ i entry _ hentry rfl (Nat.le_refl _) (fun h => (Bool.false_ne_true h).elim)
          fun id => ?_
        simp only [TreeMap.getElem?_erase, LawfulEqCmp.compare_eq_iff_eq]
        by_cases hid : entry.sessionId = id
        . exact .inr ⟨hid ▸ hsame, Bool.false_ne_true⟩
        . rw [if_neg hid]
          exact .inl rfl
      . exact .updated s.sessions i entry _ hentry rfl (Nat.le_refl _)
          (fun h => (Bool.false_ne_true h).elim) fun id => .inl rfl

/-- What a rotation leaves alone, also one that fails. -/
theorem rotateToken_state {state state' : EntryState} {token : SecretToken}
    {result : Except GraphicsRegistryError Unit} (h : state.rotateToken token = (state', result))
    : state.nextClient = state'.nextClient
        ∧
      state.tokenGeneration ≤ state'.tokenGeneration
        ∧
      (state'.alive → state.alive) := by
  rw [EntryState.rotateToken] at h
  split at h
  . cases h
    exact ⟨rfl, Nat.le_refl _, id⟩
  . simp only at h
    split at h
    . cases h
      exact ⟨rfl, Nat.le_refl _, id⟩
    . next tokenGeneration hadd =>
      obtain ⟨_, rfl⟩ := checkedAdd_eq_some_iff.mp hadd
      cases h
      exact ⟨rfl, Nat.le_succ _, id⟩

theorem changes_rotateToken (i : Nat) (token : Except String SecretToken)
    : s.Changes (s.rotateToken i token).1 (s.rotateToken i token).2.2 := by
  rw [rotateToken.eq_def]
  split
  . exact .same
  . split
    . exact .same
    . next entry hentry =>
      split
      . next state e hrotate =>
        obtain ⟨hnext, hgeneration, halive⟩ := rotateToken_state hrotate
        exact .updated s.sessions i entry state hentry hnext hgeneration halive fun id => .inl rfl
      . next state hrotate =>
        obtain ⟨hnext, hgeneration, halive⟩ := rotateToken_state hrotate
        exact .updated s.sessions i entry state hentry hnext hgeneration halive fun id => .inl rfl

theorem changes_attach (sessionId wire : String)
    : s.Changes (s.attach sessionId wire).1 (s.attach sessionId wire).2.2 := by
  rw [attach]
  split
  . exact .same
  . next i _ =>
    split
    . exact .same
    . next entry hentry =>
      split
      . exact .same
      . next state attachment hattach =>
        rw [EntryState.attach] at hattach
        simp only [bind_eq_ok_iff, ensure_eq_ok_iff, exists_const, okOr_eq_ok_iff,
          checkedAdd_eq_some_iff] at hattach
        obtain ⟨_, _, _, _, ⟨_, rfl⟩, hattach⟩ := hattach
        cases hattach
        exact .attached i entry _ hentry rfl rfl id

theorem changes_getBuffer (i : Nat) (bufferId : String) (hub : Except GraphicsHubError GraphicsBuffer)
    : s.Changes (s.getBuffer i bufferId hub).1 (s.getBuffer i bufferId hub).2.2 := by
  rw [getBuffer]
  split
  . exact .same
  . next a hattachment =>
    cases hub with
    | error e =>
      rw [GraphicsAttachment.getBuffer_error]
      simp only
      rw [setAttachment_self hattachment]
      exact .same
    | ok buffer =>
      by_cases hleased : bufferId ∈ a.leasedBuffers
      . rw [GraphicsAttachment.getBuffer_of_mem hleased]
        simp only
        rw [setAttachment_self hattachment]
        exact .same
      . rw [GraphicsAttachment.getBuffer_of_notMem hleased]
        exact .leased i a _ _ hattachment fun entry p _ =>
          GraphicsAttachment.leases_insert hleased entry p

theorem changes_cancelNewLease (i : Nat) (bufferId : String) (newlyLeased : Bool)
    (hub : Except GraphicsHubError BufferLeaseRelease)
    : s.Changes (s.cancelNewLease i bufferId newlyLeased hub).1
        (s.cancelNewLease i bufferId newlyLeased hub).2.2 := by
  rw [cancelNewLease]
  split
  . exact .same
  . next a hattachment =>
    rw [GraphicsAttachment.cancelNewLease]
    split
    . next hleased =>
      exact .leased i a _ _ hattachment fun entry p _ =>
        GraphicsAttachment.leases_erase hleased.2 entry p hub.isOk
    . simp only
      rw [setAttachment_self hattachment]
      exact .same

theorem changes_releaseBuffer (i : Nat) (bufferId : String)
    (hub : Except GraphicsHubError BufferLeaseRelease)
    : s.Changes (s.releaseBuffer i bufferId hub).1 (s.releaseBuffer i bufferId hub).2.2 := by
  rw [releaseBuffer]
  split
  . exact .same
  . next a hattachment =>
    by_cases hleased : bufferId ∈ a.leasedBuffers
    . cases hub with
      | ok outcome =>
        rw [GraphicsAttachment.releaseBuffer_of_mem hleased]
        exact .leased i a _ _ hattachment fun entry p _ =>
          GraphicsAttachment.leases_erase hleased entry p true
      | error e =>
        rw [GraphicsAttachment.releaseBuffer_error hleased]
        refine .leased i a a.leasedBuffers _ hattachment fun entry p hreliable => ?_
        -- The hub of the entry has not released a lease.
        have hother : a.entry ≠ entry := by
          rintro rfl
          cases hreliable bufferId false List.mem_cons_self
        simp [acquisitions, releases, hother]
    . rw [GraphicsAttachment.releaseBuffer_of_notMem hleased]
      simp only
      rw [setAttachment_self hattachment]
      exact .same

theorem changes_drop (i : Nat) (hub : String → Except GraphicsHubError BufferLeaseRelease)
    : s.Changes (s.drop i hub).1 (s.drop i hub).2.2 := by
  rw [drop]
  split
  . exact .same
  . next a hattachment =>
    simp only
    split
    . next hnone =>
      refine .dropped i a s.entries _ hattachment (fun k => ?_) (a.leases_drain hub) (a.acquisitions_drain hub)
      by_cases hk : k = a.entry
      . have hgone : s.entries[a.entry]? = none := hnone
        rw [hk, hgone, Option.map_none]
      . simp only [hk, if_false, Option.map_id']
    . next entry hentry =>
      refine .dropped i a _ _ hattachment (fun k => ?_) (a.leases_drain hub) (a.acquisitions_drain hub)
      have hset : ((s.setAttachment i none).setState a.entry (a.dropped entry.state)).entries[k]?
          = (s.entries[k]?).map fun e =>
            if a.entry = k then { e with state := a.dropped entry.state } else e :=
        getElem?_setState
      have hthis : s.entries[a.entry]? = some entry := hentry
      refine hset.trans ?_
      by_cases hk : k = a.entry
      . rw [hk, hthis, Option.map_some, Option.map_some, if_pos rfl]
      . simp only [hk, Ne.symm hk, if_false]

theorem changes (operation : SessionOperation)
    : s.Changes (s.step operation).1 (s.step operation).2.2 := by
  cases operation with
  | register sessionId token => exact changes_registerSession sessionId token
  | unregister entry => exact changes_unregisterSession entry
  | rotate entry token => exact changes_rotateToken entry token
  | attach sessionId wire => exact changes_attach sessionId wire
  | getBuffer i bufferId hub => exact changes_getBuffer i bufferId hub
  | cancel i bufferId newlyLeased hub => exact changes_cancelNewLease i bufferId newlyLeased hub
  | release i bufferId hub => exact changes_releaseBuffer i bufferId hub
  | drop i hub => exact changes_drop i hub

end Steps

namespace Changes

variable {s s' : GraphicsSessions} {calls : List HubCall}

/-- The counters of an entry never fall, and a closed session is never opened again. -/
theorem entry (h : s.Changes s' calls) {k : Nat} {e : RegistryEntry} (he : s.entries[k]? = some e)
    : ∃ e',
        s'.entries[k]? = some e'
          ∧
        e.state.nextClient ≤ e'.state.nextClient
          ∧
        e.state.tokenGeneration ≤ e'.state.tokenGeneration
          ∧
        (e'.state.alive → e.state.alive) := by
  cases h with
  | same => exact ⟨e, he, Nat.le_refl _, Nat.le_refl _, id⟩
  | registered entry hfresh =>
    have hk := (List.getElem?_eq_some_iff.mp he).1
    exact ⟨e, by rw [List.getElem?_append_left hk, he], Nat.le_refl _, Nat.le_refl _, id⟩
  | updated sessions i entry state hentry hnext hgeneration halive hsessions =>
    refine ⟨_, by rw [getElem?_setState, he, Option.map_some], ?_⟩
    split
    . next heq =>
      subst heq
      rw [hentry, Option.some.injEq] at he
      subst he
      exact ⟨Nat.le_of_eq hnext, hgeneration, halive⟩
    . exact ⟨Nat.le_refl _, Nat.le_refl _, id⟩
  | attached i entry state hentry hnext hgeneration halive =>
    refine ⟨_, by rw [getElem?_setState, he, Option.map_some], ?_⟩
    split
    . next heq =>
      subst heq
      rw [hentry, Option.some.injEq] at he
      subst he
      exact ⟨hnext ▸ Nat.le_succ _, Nat.le_of_eq hgeneration, halive⟩
    . exact ⟨Nat.le_refl _, Nat.le_refl _, id⟩
  | leased => exact ⟨e, he, Nat.le_refl _, Nat.le_refl _, id⟩
  | dropped i a entries calls hattachment hentries hbalance hcalls =>
    refine ⟨_, by rw [hentries, he, Option.map_some], ?_⟩
    split
    . simp only [GraphicsAttachment.dropped]
      split <;> exact ⟨Nat.le_refl _, Nat.le_refl _, id⟩
    . exact ⟨Nat.le_refl _, Nat.le_refl _, id⟩

/-- An attachment was there before, or it is the one of the client that has just attached. -/
theorem attachment (h : s.Changes s' calls) {i : Nat} {a' : GraphicsAttachment}
    (ha' : s'.attachment? i = some a')
    : (∃ a,
        s.attachment? i = some a
          ∧
        a.entry = a'.entry
          ∧
        a.clientId = a'.clientId
          ∧
        a.tokenGeneration = a'.tokenGeneration)
        ∨
      (i = s.attachments.length
          ∧
        ∃ e e',
          s.entries[a'.entry]? = some e
            ∧
          s'.entries[a'.entry]? = some e'
            ∧
          a'.clientId = e.state.nextClient
            ∧
          a'.clientId < e'.state.nextClient
            ∧
          a'.tokenGeneration ≤ e'.state.tokenGeneration) := by
  have hkept (h : s.attachment? i = some a') : ∃ a, s.attachment? i = some a ∧ a.entry = a'.entry
      ∧ a.clientId = a'.clientId ∧ a.tokenGeneration = a'.tokenGeneration :=
    ⟨a', h, rfl, rfl, rfl⟩
  cases h with
  | same => exact .inl (hkept ha')
  | registered => exact .inl (hkept ha')
  | updated => exact .inl (hkept ha')
  | attached k entry state hentry hnext hgeneration halive =>
    rw [attachment?_eq_some_iff, List.getElem?_append] at ha'
    split at ha'
    . exact .inl (hkept (attachment?_eq_some_iff.mpr ha'))
    . next hlt =>
      rw [List.getElem?_singleton] at ha'
      split at ha'
      . next hzero =>
        cases ha'
        refine .inr ⟨by omega, entry, { entry with state := state }, hentry, ?_, rfl, ?_, ?_⟩
        . rw [getElem?_setState, hentry, Option.map_some, if_pos rfl]
        . exact hnext ▸ Nat.lt_succ_self _
        . exact Nat.le_of_eq hgeneration
      . cases ha'
  | leased k a buffers calls hattachment hbalance =>
    rw [attachment?_setAttachment (lt_length_of_attachment? hattachment)] at ha'
    split at ha'
    . next heq =>
      cases ha'
      exact .inl ⟨a, heq ▸ hattachment, rfl, rfl, rfl⟩
    . exact .inl (hkept ha')
  | dropped k a entries calls hattachment hentries hbalance hcalls =>
    have hset : (s.setAttachment k none).attachment? i = some a' := ha'
    rw [attachment?_setAttachment (lt_length_of_attachment? hattachment)] at hset
    split at hset
    . cases hset
    . exact .inl (hkept hset)

theorem length_attachments (h : s.Changes s' calls)
    : s.attachments.length ≤ s'.attachments.length := by
  cases h with
  | same => exact Nat.le_refl _
  | registered => exact Nat.le_refl _
  | updated => exact Nat.le_refl _
  | attached =>
    rw [List.length_append]
    exact Nat.le_add_right _ _
  | leased =>
    rw [setAttachment, List.length_set]
  | dropped => exact Nat.le_of_eq List.length_set.symm

theorem session (h : s.Changes s' calls)
    (hs : ∀ (k : Nat) e, s.entries[k]? = some e → e.state.alive → s.sessions[e.sessionId]? = some k)
    (k : Nat) (e' : RegistryEntry) (he' : s'.entries[k]? = some e') (halive' : e'.state.alive)
    : s'.sessions[e'.sessionId]? = some k := by
  cases h with
  | same => exact hs k e' he' halive'
  | leased => exact hs k e' he' halive'
  | registered entry hfresh =>
    simp only [Table.getElem?_insert]
    rw [List.getElem?_append] at he'
    split at he'
    . have hold := hs k e' he' halive'
      rw [if_neg]
      . exact hold
      . intro heq
        rw [heq, hold] at hfresh
        cases hfresh
    . rw [List.getElem?_singleton] at he'
      split at he'
      . cases he'
        rw [if_pos rfl, Option.some.injEq]
        omega
      . cases he'
  | updated sessions i entry state hentry hnext hgeneration halive hsessions =>
    rw [getElem?_setState, Option.map_eq_some_iff] at he'
    obtain ⟨e, he, rfl⟩ := he'
    split at halive'
    . next heq =>
      subst heq
      rw [hentry, Option.some.injEq] at he
      subst he
      rw [if_pos rfl]
      rcases hsessions entry.sessionId with heq | ⟨_, hdead⟩
      . exact heq.trans (hs i entry hentry (halive halive'))
      . exact (hdead halive').elim
    . next hne =>
      rw [if_neg hne]
      have hold := hs k e he halive'
      rcases hsessions e.sessionId with heq | ⟨hother, _⟩
      . exact heq.trans hold
      . rw [hold, Option.some.injEq] at hother
        exact (hne hother.symm).elim
  | attached i entry state hentry hnext hgeneration halive =>
    rw [getElem?_setState, Option.map_eq_some_iff] at he'
    obtain ⟨e, he, rfl⟩ := he'
    split at halive'
    . next heq =>
      subst heq
      rw [hentry, Option.some.injEq] at he
      subst he
      rw [if_pos rfl]
      exact hs i entry hentry (halive halive')
    . next hne =>
      rw [if_neg hne]
      exact hs k e he halive'
  | dropped i a entries calls hattachment hentries hbalance hcalls =>
    rw [hentries, Option.map_eq_some_iff] at he'
    obtain ⟨e, he, rfl⟩ := he'
    have hold : e.state.alive → s.sessions[e.sessionId]? = some k := hs k e he
    split at halive'
    . next heq =>
      rw [if_pos heq]
      refine hold ?_
      rw [GraphicsAttachment.dropped] at halive'
      split at halive'
      . exact halive'
      . exact halive'
    . next hne =>
      rw [if_neg hne]
      exact hold halive'

theorem consistent (h : s.Changes s' calls) (hs : s.Consistent)
    : s'.Consistent := by
  refine ⟨fun i a' ha' => ?_, fun i j a' b' ha' hb' hentry hclient => ?_, h.session hs.session⟩
  . rcases h.attachment ha' with ⟨a, ha, hae, hac, hag⟩ | ⟨_, e, e', _, he', _, hlt, hle⟩
    . obtain ⟨e, he, hlt, hle⟩ := hs.entry i a ha
      obtain ⟨e', he', hnext, hgeneration, _⟩ := h.entry he
      rw [← hae, ← hac, ← hag]
      exact ⟨e', he', Nat.lt_of_lt_of_le hlt hnext, Nat.le_trans hle hgeneration⟩
    . exact ⟨e', he', hlt, hle⟩
  . -- A new client has an identifier that no attachment of its entry had before.
    rcases h.attachment ha' with ⟨a, ha, hae, hac, _⟩ | ⟨hi, e, e', he, _, hac, _, _⟩
    . rcases h.attachment hb' with ⟨b, hb, hbe, hbc, _⟩ | ⟨hj, e, e', he, _, hbc, _, _⟩
      . exact hs.clientId i j a b ha hb (hae.trans (hentry.trans hbe.symm)) (hac.trans (hclient.trans hbc.symm))
      . obtain ⟨e₀, he₀, hlt, _⟩ := hs.entry i a ha
        rw [hae, hentry, he, Option.some.injEq] at he₀
        rw [hac, hclient, hbc, he₀] at hlt
        exact (Nat.lt_irrefl _ hlt).elim
    . rcases h.attachment hb' with ⟨b, hb, hbe, hbc, _⟩ | ⟨hj, _⟩
      . obtain ⟨e₀, he₀, hlt, _⟩ := hs.entry j b hb
        rw [hbe, ← hentry, he, Option.some.injEq] at he₀
        rw [hbc, ← hclient, hac, he₀] at hlt
        exact (Nat.lt_irrefl _ hlt).elim
      . exact hi.trans hj.symm

theorem leases (h : s.Changes s' calls) {entry : Nat} (hreliable : Reliable entry calls) (p : String → Bool)
    : s.leases entry p + acquisitions entry p calls = s'.leases entry p + releases entry p calls := by
  cases h with
  | same => rfl
  | registered => rfl
  | updated => rfl
  | attached =>
    rw [GraphicsSessions.leases, GraphicsSessions.leases, List.map_append, List.sum_append]
    simp [GraphicsAttachment.leases, acquisitions, releases]
  | leased i a buffers calls hattachment hbalance =>
    have hset := leases_setAttachment hattachment (some { a with leasedBuffers := buffers }) entry p
    have hleases := hbalance entry p hreliable
    rw [Option.map_some, Option.getD_some] at hset
    omega
  | dropped i a entries calls hattachment hentries hbalance hcalls =>
    have hset := leases_setAttachment hattachment none entry p
    have hgone : GraphicsSessions.leases entry p { s.setAttachment i none with entries := entries }
        = (s.setAttachment i none).leases entry p := rfl
    rw [Option.map_none, Option.getD_none, hbalance] at hset
    rw [hcalls, hgone]
    omega

end Changes

section Runs

variable {s s' : GraphicsSessions} {operation : SessionOperation} {operations rest : List SessionOperation}
  {calls : List HubCall} {i k : Nat}

theorem consistent_empty
    : empty.Consistent := by
  have hnone : ∀ i a, empty.attachment? i ≠ some a := by
    intro i a h
    rw [attachment?, empty, List.getElem?_nil] at h
    cases h
  refine ⟨fun i a h => absurd h (hnone i a), fun i j a b h => absurd h (hnone i a), fun k e h => ?_⟩
  rw [empty, List.getElem?_nil] at h
  cases h

theorem consistent_run (hs : s.Consistent)
    : (s.run operations).1.Consistent := by
  induction operations generalizing s with
  | nil => exact hs
  | cons operation rest ih => exact ih ((changes operation).consistent hs)

theorem leases_run {entry : Nat} (hreliable : Reliable entry (s.run operations).2) (p : String → Bool)
    : s.leases entry p + acquisitions entry p (s.run operations).2
        = (s.run operations).1.leases entry p + releases entry p (s.run operations).2 := by
  induction operations generalizing s with
  | nil => rfl
  | cons operation rest ih =>
    rw [run] at hreliable ⊢
    have hstep := (changes (s := s) operation).leases
      (fun b succeeded hmem => hreliable b succeeded (List.mem_append_left _ hmem)) p
    have hrest := ih (s := (s.step operation).1)
      (fun b succeeded hmem => hreliable b succeeded (List.mem_append_right _ hmem))
    simp only [acquisitions, releases, List.countP_append] at hstep hrest ⊢
    omega

/-- The attachment was made, and it is older than the current generation of its session or the session is
closed. -/
def Stale (s : GraphicsSessions) (i : Nat) : Prop :=
  i < s.attachments.length
    ∧
  ∀ a, s.attachment? i = some a → ∃ e,
    s.entries[a.entry]? = some e
      ∧
    (e.state.alive → a.tokenGeneration < e.state.tokenGeneration)

theorem Stale.changes (h : s.Stale i) (hchanges : s.Changes s' calls)
    : s'.Stale i := by
  refine ⟨Nat.lt_of_lt_of_le h.1 hchanges.length_attachments, fun a' ha' => ?_⟩
  rcases hchanges.attachment ha' with ⟨a, ha, hae, _, hag⟩ | ⟨hi, _⟩
  . obtain ⟨e, he, hold⟩ := h.2 a ha
    obtain ⟨e', he', _, hgeneration, halive⟩ := hchanges.entry he
    rw [← hae, ← hag]
    exact ⟨e', he', fun h => Nat.lt_of_lt_of_le (hold (halive h)) hgeneration⟩
  . have hlt := h.1
    omega

theorem Stale.run (h : s.Stale i)
    : (s.run operations).1.Stale i := by
  induction operations generalizing s with
  | nil => exact h
  | cons operation rest ih => exact ih (h.changes (GraphicsSessions.changes operation))

theorem Stale.not_live (h : s.Stale i)
    : ¬s.Live i := by
  rintro ⟨a, e, ha, he, hlive⟩
  obtain ⟨e', he', hold⟩ := h.2 a ha
  rw [he, Option.some.injEq] at he'
  subst he'
  rw [GraphicsAttachment.isLive, Bool.and_eq_true, Bool.and_eq_true, beq_iff_eq, beq_iff_eq] at hlive
  obtain ⟨⟨halive, hgeneration⟩, _⟩ := hlive
  have hlt := hold halive
  omega

/-- The operation closes the session of an entry or gives it new credentials. -/
def Renews (s : GraphicsSessions) (operation : SessionOperation) (entry : Nat) : Prop :=
  (operation = .unregister entry ∧ ∃ removed, (s.step operation).2.1 = .ok (.unregistered removed))
    ∨
  ((∃ token, operation = .rotate entry token) ∧ (s.step operation).2.1 = .ok .rotated)

/-- The operation is a rotation of a live session whose generation cannot be advanced, with a token that the
session does not have yet. -/
def Exhausts (s : GraphicsSessions) (operation : SessionOperation) : Prop :=
  ∃ i token entry,
    operation = .rotate i (.ok token)
      ∧
    s.entries[i]? = some entry
      ∧
    entry.state.alive
      ∧
    maxCounter ≤ entry.state.tokenGeneration
      ∧
    entry.state.token ≠ token

theorem rotateToken_of_lt {state : EntryState} {token : SecretToken} (halive : state.alive)
    (hlt : state.tokenGeneration < maxCounter)
    : state.rotateToken token
        = ({ state with token := token, tokenGeneration := state.tokenGeneration + 1 }, .ok ()) := by
  have hmax : maxCounter + 1 = 2 ^ 64 := by decide
  have hadd : checkedAdd 64 state.tokenGeneration 1 = some (state.tokenGeneration + 1) :=
    checkedAdd_eq_some_iff.mpr ⟨by omega, rfl⟩
  rw [EntryState.rotateToken, halive]
  simp only [hadd]
  rfl

theorem rotateToken_of_le {state : EntryState} {token : SecretToken} (halive : state.alive)
    (hle : maxCounter ≤ state.tokenGeneration)
    : state.rotateToken token = ({ state with token := token }, .error .sessionClosed) := by
  have hmax : maxCounter + 1 = 2 ^ 64 := by decide
  have hadd : checkedAdd 64 state.tokenGeneration 1 = none := by
    rw [checkedAdd, if_neg]
    omega
  rw [EntryState.rotateToken, halive]
  simp only [hadd]
  rfl

theorem setState_self {entry : RegistryEntry} (h : s.entries[i]? = some entry)
    : s.setState i entry.state = s := by
  have hentries : (s.setState i entry.state).entries = s.entries := by
    apply List.ext_getElem?
    intro k
    rw [getElem?_setState]
    by_cases hk : i = k
    . rw [← hk, h, Option.map_some, if_pos rfl]
    . simp [hk]
  rw [setState] at hentries ⊢
  simp only at hentries
  rw [hentries]

theorem stale_of_renews {a : GraphicsAttachment} (hs : s.Consistent) (h : s.Renews operation a.entry)
    (ha : s.attachment? i = some a)
    : (s.step operation).1.Stale i := by
  obtain ⟨e, he, _, hgeneration⟩ := hs.entry i a ha
  have hi := lt_length_of_attachment? ha
  rcases h with ⟨rfl, _⟩ | ⟨⟨token, rfl⟩, hrotated⟩
  . rw [step, unregisterSession]
    simp only [he]
    split
    . next hdead =>
      refine ⟨hi, fun a' ha' => ?_⟩
      rw [ha, Option.some.injEq] at ha'
      subst ha'
      refine ⟨e, he, fun halive => ?_⟩
      rw [halive] at hdead
      cases hdead
    . have hclosed (sessions : TreeMap String Nat)
          : Stale { s.setState a.entry { e.state with alive := false } with sessions := sessions } i := by
        refine ⟨hi, fun a' ha' => ?_⟩
        have hsame : s.attachment? i = some a' := ha'
        rw [ha, Option.some.injEq] at hsame
        subst hsame
        refine ⟨_, by rw [getElem?_setState, he, Option.map_some, if_pos rfl], fun halive => ?_⟩
        cases halive
      split
      . exact hclosed _
      . exact hclosed _
  . rw [step, rotateToken.eq_def] at hrotated ⊢
    cases token with
    | error message => cases hrotated
    | ok token =>
      simp only [he] at hrotated ⊢
      by_cases halive : e.state.alive
      . by_cases hlt : e.state.tokenGeneration < maxCounter
        . rw [rotateToken_of_lt halive hlt] at hrotated ⊢
          refine ⟨hi, fun a' ha' => ?_⟩
          have hsame : s.attachment? i = some a' := ha'
          rw [ha, Option.some.injEq] at hsame
          subst hsame
          refine ⟨_, by rw [getElem?_setState, he, Option.map_some, if_pos rfl], fun _ => ?_⟩
          exact Nat.lt_succ_of_le hgeneration
        . rw [rotateToken_of_le halive (Nat.not_lt.mp hlt)] at hrotated
          cases hrotated
      . rw [EntryState.rotateToken, Bool.eq_false_of_not_eq_true halive] at hrotated
        cases hrotated

/-- A rotation that fails changes the entry exactly if it has stored a new token by then. -/
theorem rotateToken_eq_self_iff {token : Except String SecretToken} {e : Failure}
    (h : (s.rotateToken i token).2.1 = .error e)
    : (s.rotateToken i token).1 = s ↔ ¬s.Exhausts (.rotate i token) := by
  rw [rotateToken.eq_def] at h ⊢
  cases token with
  | error message =>
    refine ⟨fun _ => ?_, fun _ => rfl⟩
    rintro ⟨_, _, _, heq, _⟩
    cases heq
  | ok token =>
    cases hentry : s.entries[i]? with
    | none =>
      rw [hentry] at h
      cases h
    | some entry =>
      rw [hentry] at h
      simp only at h ⊢
      by_cases halive : entry.state.alive
      . by_cases hlt : entry.state.tokenGeneration < maxCounter
        . rw [rotateToken_of_lt halive hlt] at h
          cases h
        . have hle := Nat.not_lt.mp hlt
          rw [rotateToken_of_le halive hle]
          simp only
          constructor
          . rintro heq ⟨_, _, entry', hrotate, hentry', _, _, hne⟩
            cases hrotate
            rw [hentry, Option.some.injEq] at hentry'
            subst hentry'
            have hstored : (s.setState i { entry.state with token := token }).entries[i]? = _ :=
              getElem?_setState
            rw [heq, hentry, Option.map_some, if_pos rfl, Option.some.injEq] at hstored
            exact hne (congrArg (fun entry => entry.state.token) hstored)
          . intro hnot
            have htoken : entry.state.token = token := by
              by_contra hne
              exact hnot ⟨i, token, entry, rfl, hentry, halive, hle, hne⟩
            rw [← htoken]
            exact setState_self hentry
      . rw [EntryState.rotateToken, Bool.eq_false_of_not_eq_true halive]
        simp only [Bool.not_false, if_true]
        refine ⟨fun _ => ?_, fun _ => setState_self hentry⟩
        rintro ⟨_, _, entry', hrotate, hentry', halive', _⟩
        cases hrotate
        rw [hentry, Option.some.injEq] at hentry'
        subst hentry'
        exact halive halive'

/-- Every other operation that fails leaves the sessions and the leases alone. -/
theorem step_eq_self {e : Failure} (hrotate : ∀ i token, operation ≠ .rotate i token)
    : (s.step operation).2.1 = .error e → (s.step operation).1 = s := by
  cases operation with
  | rotate i token => exact (hrotate i token rfl).elim
  | register sessionId token =>
    rw [step, registerSession.eq_def]
    split
    . exact fun _ => rfl
    . split
      . exact fun _ => rfl
      . split
        . exact fun _ => rfl
        . rintro ⟨⟩
  | unregister i =>
    rw [step, unregisterSession]
    split
    . rintro ⟨⟩
    . split
      . rintro ⟨⟩
      . simp only
        split
        . rintro ⟨⟩
        . rintro ⟨⟩
  | attach sessionId wire =>
    rw [step, attach]
    split
    . exact fun _ => rfl
    . split
      . exact fun _ => rfl
      . split
        . exact fun _ => rfl
        . rintro ⟨⟩
  | getBuffer i bufferId hub =>
    rw [step, getBuffer]
    split
    . rintro ⟨⟩
    . next a ha =>
      cases hub with
      | error e =>
        rw [GraphicsAttachment.getBuffer_error]
        exact fun _ => setAttachment_self ha
      | ok buffer =>
        by_cases hleased : bufferId ∈ a.leasedBuffers
        . rw [GraphicsAttachment.getBuffer_of_mem hleased]
          rintro ⟨⟩
        . rw [GraphicsAttachment.getBuffer_of_notMem hleased]
          rintro ⟨⟩
  | cancel i bufferId newlyLeased hub =>
    rw [step, cancelNewLease]
    split
    . rintro ⟨⟩
    . rintro ⟨⟩
  | release i bufferId hub =>
    rw [step, releaseBuffer]
    split
    . rintro ⟨⟩
    . next a ha =>
      by_cases hleased : bufferId ∈ a.leasedBuffers
      . cases hub with
        | error e =>
          rw [GraphicsAttachment.releaseBuffer_error hleased]
          exact fun _ => setAttachment_self ha
        | ok outcome =>
          rw [GraphicsAttachment.releaseBuffer_of_mem hleased]
          rintro ⟨⟩
      . rw [GraphicsAttachment.releaseBuffer_of_notMem hleased]
        rintro ⟨⟩
  | drop i hub =>
    rw [step, drop]
    split
    . rintro ⟨⟩
    . simp only
      split
      . rintro ⟨⟩
      . rintro ⟨⟩

theorem step_eq_self_iff {e : Failure} (h : (s.step operation).2.1 = .error e)
    : (s.step operation).1 = s ↔ ¬s.Exhausts operation := by
  by_cases hrotate : ∃ i token, operation = .rotate i token
  . obtain ⟨i, token, rfl⟩ := hrotate
    exact rotateToken_eq_self_iff h
  . rw [not_exists] at hrotate
    refine ⟨fun _ => ?_, fun _ => step_eq_self (fun i token heq => hrotate i ⟨token, heq⟩) h⟩
    rintro ⟨i, token, _, heq, _⟩
    exact hrotate i ⟨_, heq⟩

/-- Two live attachments of one session are the same. -/
theorem eq_of_live (hs : s.Consistent) {j : Nat} {a b : GraphicsAttachment} {e f : RegistryEntry}
    (ha : s.attachment? i = some a) (hb : s.attachment? j = some b)
    (he : s.entries[a.entry]? = some e) (hf : s.entries[b.entry]? = some f)
    (hsession : e.sessionId = f.sessionId) (hliveA : a.isLive e.state) (hliveB : b.isLive f.state)
    : i = j := by
  rw [GraphicsAttachment.isLive, Bool.and_eq_true, Bool.and_eq_true, beq_iff_eq, beq_iff_eq]
    at hliveA hliveB
  have hlookupA := hs.session _ e he hliveA.1.1
  have hlookupB := hs.session _ f hf hliveB.1.1
  have hentry : a.entry = b.entry := by
    rw [hsession, hlookupB, Option.some.injEq] at hlookupA
    exact hlookupA.symm
  rw [hentry, hf, Option.some.injEq] at he
  subst he
  have hclient : a.clientId = b.clientId := by
    rw [hliveA.2, Option.some.injEq] at hliveB
    exact hliveB.2
  exact hs.clientId i j a b ha hb hentry hclient

/-- In every run, a session has at most one live attachment, an attachment made before its session was renewed
is never live again, a failed operation changes nothing but for a rotation that exhausts the generations, and
the leases of a reliable hub are those of the attachments, also for every kind of buffers. -/
theorem sessions_correct (operations : List SessionOperation)
    : (∀ i j a b e f,
        (empty.run operations).1.attachment? i = some a →
        (empty.run operations).1.attachment? j = some b →
        (empty.run operations).1.entries[a.entry]? = some e →
        (empty.run operations).1.entries[b.entry]? = some f →
        e.sessionId = f.sessionId →
        a.isLive e.state →
        b.isLive f.state →
        i = j)
        ∧
      (∀ operation i a rest,
        (empty.run operations).1.attachment? i = some a →
        (empty.run operations).1.Renews operation a.entry →
        ¬(((empty.run operations).1.step operation).1.run rest).1.Live i)
        ∧
      (∀ operation e,
        ((empty.run operations).1.step operation).2.1 = .error e →
        (((empty.run operations).1.step operation).1 = (empty.run operations).1
            ↔
          ¬(empty.run operations).1.Exhausts operation))
        ∧
      (∀ entry p,
        Reliable entry (empty.run operations).2 →
        acquisitions entry p (empty.run operations).2
          = releases entry p (empty.run operations).2 + (empty.run operations).1.leases entry p) := by
  have hs : (empty.run operations).1.Consistent := consistent_run consistent_empty
  refine ⟨fun i j a b e f ha hb he hf => eq_of_live hs ha hb he hf,
    fun operation i a rest ha hrenews => (stale_of_renews hs hrenews ha).run.not_live,
    fun operation e => step_eq_self_iff, fun entry p hreliable => ?_⟩
  have hleases := leases_run hreliable p
  have hnone : empty.leases entry p = 0 := rfl
  omega

/-- An entry is alive, with the given token and generation. -/
def Holds (s : GraphicsSessions) (i : Nat) (token : SecretToken) (generation : Nat) : Prop :=
  ∃ entry,
    s.entries[i]? = some entry
      ∧
    entry.state.alive
      ∧
    entry.state.token = token
      ∧
    entry.state.tokenGeneration = generation

theorem Holds.rotate {token token' : SecretToken} {generation : Nat} (h : s.Holds i token generation)
    (hlt : generation < maxCounter)
    : (s.step (.rotate i (.ok token'))).1.Holds i token' (generation + 1) := by
  obtain ⟨entry, hentry, halive, rfl, rfl⟩ := h
  rw [step, rotateToken.eq_def]
  simp only [hentry]
  rw [rotateToken_of_lt halive hlt]
  refine ⟨{ entry with
    state := { entry.state with token := token', tokenGeneration := entry.state.tokenGeneration + 1 } },
    ?_, halive, rfl, rfl⟩
  rw [getElem?_setState, hentry, Option.map_some, if_pos rfl]

theorem Holds.run {token : SecretToken} {generation n : Nat} (h : s.Holds i token generation)
    (hroom : generation + n ≤ maxCounter)
    : (s.run (List.replicate n (.rotate i (.ok token)))).1.Holds i token (generation + n) := by
  induction n generalizing s generation with
  | zero => exact h
  | succ n ih =>
    have hnext := ih (h.rotate (by omega)) (by omega)
    rw [Nat.add_right_comm] at hnext
    exact hnext

def zeroToken : SecretToken := ⟨.replicate 32 0⟩

def oneToken : SecretToken := ⟨.replicate 32 1⟩

/-- The session is registered, and its token is rotated the given number of times. -/
def rotations (n : Nat) : List SessionOperation :=
  .register "s" (.ok zeroToken) :: List.replicate n (.rotate 0 (.ok zeroToken))

theorem holds_rotations {n : Nat} (h : 1 + n ≤ maxCounter)
    : (empty.run (rotations n)).1.Holds 0 zeroToken (1 + n) := by
  have hregistered : (empty.step (.register "s" (.ok zeroToken))).1.Holds 0 zeroToken 1 :=
    ⟨⟨"s", .new zeroToken⟩, rfl, rfl, rfl, rfl⟩
  exact hregistered.run h

theorem exhausts_rotations {n : Nat} (h : 1 + n = maxCounter)
    : ((empty.run (rotations n)).1.step (.rotate 0 (.ok oneToken))).2.1 = .error (.registry .sessionClosed)
        ∧
      (empty.run (rotations n)).1.Exhausts (.rotate 0 (.ok oneToken)) := by
  obtain ⟨entry, hentry, halive, htoken, hgeneration⟩ := holds_rotations (Nat.le_of_eq h)
  have hle : maxCounter ≤ entry.state.tokenGeneration := Nat.le_of_eq (hgeneration.trans h).symm
  constructor
  . rw [step, rotateToken.eq_def]
    simp only [hentry]
    rw [rotateToken_of_le halive hle]
  . refine ⟨0, oneToken, entry, rfl, hentry, halive, hle, ?_⟩
    rw [htoken]
    decide

/-- After `2 ^ 64 - 2` rotations one more fails, and changes the token nevertheless. -/
theorem rotate_exhausted
    : ((empty.run (rotations 18446744073709551614)).1.step (.rotate 0 (.ok oneToken))).2.1
          = .error (.registry .sessionClosed)
        ∧
      ((empty.run (rotations 18446744073709551614)).1.step (.rotate 0 (.ok oneToken))).1
          ≠ (empty.run (rotations 18446744073709551614)).1 := by
  have hexhausts {n : Nat} (h : 1 + n = maxCounter)
      : ((empty.run (rotations n)).1.step (.rotate 0 (.ok oneToken))).2.1
            = .error (.registry .sessionClosed)
          ∧
        ((empty.run (rotations n)).1.step (.rotate 0 (.ok oneToken))).1 ≠ (empty.run (rotations n)).1 := by
    obtain ⟨herror, hexhausted⟩ := exhausts_rotations h
    exact ⟨herror, fun hsame => (step_eq_self_iff herror).mp hsame hexhausted⟩
  exact hexhausts rfl

end Runs

end GraphicsSessions

end Graphics
end OpenMat
