import Mathlib.Algebra.BigOperators.Group.Finset.Basic
import Mathlib.Data.Finset.Sort
import Mathlib.Data.String.Basic
import OpenMat.Graphics.Limits
import OpenMat.Table.Lookup

/-!
This module contains the registry of graphics sessions, the attachments of clients to them, and the buffers
that an attachment has leased from the hub of its session.
-/

namespace OpenMat
namespace Graphics

open Std

/-- `u64::MAX`. -/
def maxCounter : Nat := 18446744073709551615

/-- A failure that a session operation reports to a graphics client. -/
structure ProtocolFailure where
  category : ErrorCategory
  message : String
  deriving DecidableEq, Repr

structure GraphicsHubError where
  category : ErrorCategory
  message : String
  deriving DecidableEq, Repr

inductive GraphicsRegistryError where
  | entropy (message : String)
  | duplicateSession
  | sessionClosed
  deriving DecidableEq, Repr

structure GraphicsBuffer where
  bufferId : String
  bytes : List UInt8
  deriving DecidableEq, Repr

structure BufferLeaseRelease where
  reclaimed : Bool
  deriving DecidableEq, Repr

structure SecretToken where
  bytes : Vector UInt8 32
  deriving DecidableEq

def hexNibble (c : Char) : Option UInt8 :=
  if '0' ≤ c ∧ c ≤ '9' then some (UInt8.ofNat (c.toNat - '0'.toNat))
  else if 'a' ≤ c ∧ c ≤ 'f' then some (UInt8.ofNat (c.toNat - 'a'.toNat + 10))
  else if 'A' ≤ c ∧ c ≤ 'F' then some (UInt8.ofNat (c.toNat - 'A'.toNat + 10))
  else none

def decodePairs : List Char → Option (List UInt8)
  | high :: low :: rest => do
    let high ← hexNibble high
    let low ← hexNibble low
    let rest ← decodePairs rest
    pure ((high <<< 4 ||| low) :: rest)
  | _ => some []

def decodeHexToken (wire : String) : Option (List UInt8) :=
  if wire.utf8ByteSize ≠ 64 ∨ ¬wire.toList.all (fun c => c.toNat < 128) then none
  else decodePairs wire.toList

def SecretToken.matchesWire (token : SecretToken) (wire : String) : Bool :=
  match decodeHexToken wire with
  | none => false
  | some candidate =>
    (token.bytes.toList.zip candidate).foldl (fun difference pair => difference ||| (pair.1 ^^^ pair.2)) 0
      == 0

structure EntryState where
  token : SecretToken
  tokenGeneration : Nat
  activeClient : Option Nat
  nextClient : Nat
  alive : Bool
  deriving DecidableEq

structure RegistryEntry where
  sessionId : String
  state : EntryState
  deriving DecidableEq

/-- The attachment of a client. The entry of its session is given by its position. -/
structure GraphicsAttachment where
  entry : Nat
  clientId : Nat
  tokenGeneration : Nat
  leasedBuffers : Finset String
  deriving DecidableEq

/-- A call of the hub of a session that concerns leases. -/
inductive HubCall where
  | acquire (entry : Nat) (bufferId : String)
  | release (entry : Nat) (bufferId : String) (succeeded : Bool)
  deriving DecidableEq

def EntryState.new (token : SecretToken) : EntryState where
  token := token
  tokenGeneration := 1
  activeClient := none
  nextClient := 1
  alive := true

/-- The new token is stored before the generation is advanced. -/
def EntryState.rotateToken (state : EntryState) (token : SecretToken)
    : EntryState × Except GraphicsRegistryError Unit :=
  if !state.alive then (state, .error .sessionClosed)
  else
    let stored := { state with token := token }
    match checkedAdd 64 stored.tokenGeneration 1 with
    | none => (stored, .error .sessionClosed)
    | some tokenGeneration => ({ stored with tokenGeneration := tokenGeneration }, .ok ())

def unauthorized : ProtocolFailure := ⟨.unauthorized, "graphics attachment was not authorized"⟩

/-- The attachment of a new client to an entry, without its position. -/
def EntryState.attach (state : EntryState) (wire : String)
    : Except ProtocolFailure (EntryState × (Nat → GraphicsAttachment)) := do
  ensure state.alive ⟨.sessionClosed, "graphics session is closed"⟩
  ensure (state.token.matchesWire wire) unauthorized
  ensure state.activeClient.isNone ⟨.sessionInUse, "graphics session already has an active client"⟩
  let clientId := state.nextClient
  let nextClient ← okOr (checkedAdd 64 state.nextClient 1)
    ⟨.sessionClosed, "graphics client IDs exhausted"⟩
  pure ({ state with nextClient := nextClient, activeClient := some clientId },
    fun entry => ⟨entry, clientId, state.tokenGeneration, ∅⟩)

namespace GraphicsAttachment

/-- Whether the attachment is live, by the state of its entry. -/
def isLive (attachment : GraphicsAttachment) (state : EntryState) : Bool :=
  state.alive && state.tokenGeneration == attachment.tokenGeneration
    && state.activeClient == some attachment.clientId

/-- The hub acquires a lease if the buffer is not leased yet, and answers with the buffer or an error. -/
def getBuffer (attachment : GraphicsAttachment) (bufferId : String)
    (hub : Except GraphicsHubError GraphicsBuffer)
    : GraphicsAttachment × Except GraphicsHubError (GraphicsBuffer × Bool) × List HubCall :=
  let newlyLeased := decide (bufferId ∉ attachment.leasedBuffers)
  let inserted := { attachment with leasedBuffers := insert bufferId attachment.leasedBuffers }
  match hub with
  | .ok buffer =>
    (inserted, .ok (buffer, newlyLeased),
      if newlyLeased then [.acquire attachment.entry bufferId] else [])
  | .error e =>
    if newlyLeased then
      ({ inserted with leasedBuffers := inserted.leasedBuffers.erase bufferId }, .error e, [])
    else
      (inserted, .error e, [])

def cancelNewLease (attachment : GraphicsAttachment) (bufferId : String) (newlyLeased : Bool)
    (hub : Except GraphicsHubError BufferLeaseRelease)
    : GraphicsAttachment × List HubCall :=
  if newlyLeased ∧ bufferId ∈ attachment.leasedBuffers then
    ({ attachment with leasedBuffers := attachment.leasedBuffers.erase bufferId },
      [.release attachment.entry bufferId hub.isOk])
  else
    (attachment, [])

def releaseBuffer (attachment : GraphicsAttachment) (bufferId : String)
    (hub : Except GraphicsHubError BufferLeaseRelease)
    : GraphicsAttachment × Except GraphicsHubError (Bool × BufferLeaseRelease) × List HubCall :=
  if bufferId ∉ attachment.leasedBuffers then
    (attachment, .ok (false, ⟨false⟩), [])
  else
    let removed := { attachment with leasedBuffers := attachment.leasedBuffers.erase bufferId }
    match hub with
    | .ok outcome => (removed, .ok (true, outcome), [.release attachment.entry bufferId true])
    | .error e =>
      ({ removed with leasedBuffers := insert bufferId removed.leasedBuffers }, .error e,
        [.release attachment.entry bufferId false])

/-- The leases that are released when the attachment is dropped, with the answers of the hub. -/
def drain (attachment : GraphicsAttachment) (hub : String → Except GraphicsHubError BufferLeaseRelease)
    : List HubCall :=
  (attachment.leasedBuffers.sort (· ≤ ·)).map fun bufferId =>
    .release attachment.entry bufferId (hub bufferId).isOk

/-- The state of the entry after the attachment is dropped. -/
def dropped (attachment : GraphicsAttachment) (state : EntryState) : EntryState :=
  if state.activeClient = some attachment.clientId then { state with activeClient := none } else state

end GraphicsAttachment

inductive Failure where
  | registry (e : GraphicsRegistryError)
  | protocol (e : ProtocolFailure)
  | hub (e : GraphicsHubError)
  deriving DecidableEq, Repr

inductive Reply where
  | registered (entry : Nat)
  | unregistered (removed : Bool)
  | rotated
  | attached (attachment : Nat)
  | buffer (buffer : GraphicsBuffer) (newlyLeased : Bool)
  | cancelled
  | released (leased : Bool) (outcome : BufferLeaseRelease)
  | dropped
  /-- There is no such entry, or the attachment was dropped before. -/
  | absent
  deriving DecidableEq, Repr

/-- An operation, with the results of the random generator and of the hub that it meets. Entries and
attachments are given by their positions. -/
inductive SessionOperation where
  | register (sessionId : String) (token : Except String SecretToken)
  | unregister (entry : Nat)
  | rotate (entry : Nat) (token : Except String SecretToken)
  | attach (sessionId wire : String)
  | getBuffer (attachment : Nat) (bufferId : String) (hub : Except GraphicsHubError GraphicsBuffer)
  | cancel (attachment : Nat) (bufferId : String) (newlyLeased : Bool)
    (hub : Except GraphicsHubError BufferLeaseRelease)
  | release (attachment : Nat) (bufferId : String) (hub : Except GraphicsHubError BufferLeaseRelease)
  | drop (attachment : Nat) (hub : String → Except GraphicsHubError BufferLeaseRelease)

/-- The sessions that can be looked up, every entry that was ever registered, and every attachment. -/
structure GraphicsSessions where
  sessions : TreeMap String Nat
  entries : List RegistryEntry
  attachments : List (Option GraphicsAttachment)

namespace GraphicsSessions

def empty : GraphicsSessions := ⟨∅, [], []⟩

def setState (s : GraphicsSessions) (entry : Nat) (state : EntryState) : GraphicsSessions :=
  { s with entries := s.entries.modify entry fun e => { e with state := state } }

def setAttachment (s : GraphicsSessions) (i : Nat) (attachment : Option GraphicsAttachment)
    : GraphicsSessions :=
  { s with attachments := s.attachments.set i attachment }

def attachment? (s : GraphicsSessions) (i : Nat) : Option GraphicsAttachment := (s.attachments[i]?).join

abbrev Result := GraphicsSessions × Except Failure Reply × List HubCall

def registerSession (s : GraphicsSessions) (sessionId : String) (token : Except String SecretToken)
    : Result :=
  if sessionId = "" then (s, .error (.registry .sessionClosed), [])
  else
    match token with
    | .error message => (s, .error (.registry (.entropy message)), [])
    | .ok token =>
      if s.sessions.contains sessionId then (s, .error (.registry .duplicateSession), [])
      else
        let entry := s.entries.length
        ({ s with
            sessions := s.sessions.insert sessionId entry
            entries := s.entries ++ [⟨sessionId, .new token⟩] },
          .ok (.registered entry), [])

def unregisterSession (s : GraphicsSessions) (i : Nat) : Result :=
  match s.entries[i]? with
  | none => (s, .ok .absent, [])
  | some entry =>
    if !entry.state.alive then (s, .ok (.unregistered false), [])
    else
      let closed := s.setState i { entry.state with alive := false }
      -- The session may have been registered again in the meantime.
      if closed.sessions[entry.sessionId]? = some i then
        ({ closed with sessions := closed.sessions.erase entry.sessionId }, .ok (.unregistered true), [])
      else
        (closed, .ok (.unregistered true), [])

def rotateToken (s : GraphicsSessions) (i : Nat) (token : Except String SecretToken) : Result :=
  match token with
  | .error message => (s, .error (.registry (.entropy message)), [])
  | .ok token =>
    match s.entries[i]? with
    | none => (s, .ok .absent, [])
    | some entry =>
      match entry.state.rotateToken token with
      | (state, .error e) => (s.setState i state, .error (.registry e), [])
      | (state, .ok ()) => (s.setState i state, .ok .rotated, [])

def attach (s : GraphicsSessions) (sessionId wire : String) : Result :=
  match s.sessions[sessionId]? with
  | none => (s, .error (.protocol unauthorized), [])
  | some i =>
    match s.entries[i]? with
    | none => (s, .error (.protocol unauthorized), [])
    | some entry =>
      match entry.state.attach wire with
      | .error e => (s, .error (.protocol e), [])
      | .ok (state, attachment) =>
        let attached := s.setState i state
        ({ attached with attachments := attached.attachments ++ [some (attachment i)] },
          .ok (.attached s.attachments.length), [])

def getBuffer (s : GraphicsSessions) (i : Nat) (bufferId : String)
    (hub : Except GraphicsHubError GraphicsBuffer) : Result :=
  match s.attachment? i with
  | none => (s, .ok .absent, [])
  | some attachment =>
    match attachment.getBuffer bufferId hub with
    | (attachment, .error e, calls) => (s.setAttachment i attachment, .error (.hub e), calls)
    | (attachment, .ok (buffer, newlyLeased), calls) =>
      (s.setAttachment i attachment, .ok (.buffer buffer newlyLeased), calls)

def cancelNewLease (s : GraphicsSessions) (i : Nat) (bufferId : String) (newlyLeased : Bool)
    (hub : Except GraphicsHubError BufferLeaseRelease) : Result :=
  match s.attachment? i with
  | none => (s, .ok .absent, [])
  | some attachment =>
    let cancelled := attachment.cancelNewLease bufferId newlyLeased hub
    (s.setAttachment i cancelled.1, .ok .cancelled, cancelled.2)

def releaseBuffer (s : GraphicsSessions) (i : Nat) (bufferId : String)
    (hub : Except GraphicsHubError BufferLeaseRelease) : Result :=
  match s.attachment? i with
  | none => (s, .ok .absent, [])
  | some attachment =>
    match attachment.releaseBuffer bufferId hub with
    | (attachment, .error e, calls) => (s.setAttachment i attachment, .error (.hub e), calls)
    | (attachment, .ok (leased, outcome), calls) =>
      (s.setAttachment i attachment, .ok (.released leased outcome), calls)

def drop (s : GraphicsSessions) (i : Nat) (hub : String → Except GraphicsHubError BufferLeaseRelease)
    : Result :=
  match s.attachment? i with
  | none => (s, .ok .absent, [])
  | some attachment =>
    let gone := s.setAttachment i none
    match gone.entries[attachment.entry]? with
    | none => (gone, .ok .dropped, attachment.drain hub)
    | some entry =>
      (gone.setState attachment.entry (attachment.dropped entry.state), .ok .dropped, attachment.drain hub)

def step (s : GraphicsSessions) : SessionOperation → Result
  | .register sessionId token => s.registerSession sessionId token
  | .unregister entry => s.unregisterSession entry
  | .rotate entry token => s.rotateToken entry token
  | .attach sessionId wire => s.attach sessionId wire
  | .getBuffer i bufferId hub => s.getBuffer i bufferId hub
  | .cancel i bufferId newlyLeased hub => s.cancelNewLease i bufferId newlyLeased hub
  | .release i bufferId hub => s.releaseBuffer i bufferId hub
  | .drop i hub => s.drop i hub

/-- The state after a run, and the calls that the hubs have seen. -/
def run (s : GraphicsSessions) : List SessionOperation → GraphicsSessions × List HubCall
  | [] => (s, [])
  | operation :: rest =>
    let result := s.step operation
    let final := run result.1 rest
    (final.1, result.2.2 ++ final.2)

end GraphicsSessions

end Graphics
end OpenMat
