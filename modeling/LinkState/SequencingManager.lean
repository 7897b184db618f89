import Mathlib.Tactic.NormNum

/-!
# The sequencing manager

A router numbers its three LSAs with three counters and announces them as one 64-bit number:
the Adjacency counter in bits 0 to 19, the Coordinate counter in bits 20 to 39, the Name
counter from bit 40 on. `combineSequenceNo` packs, `splitSequenceNo` unpacks with masks.

The combined number is also what is written to the sequence file, so a file is an
`Option UInt64`: absent, or the number it holds.
-/

namespace LinkState

structure SequencingManager where
  nameLsaSeq : UInt64
  adjLsaSeq : UInt64
  corLsaSeq : UInt64
  combinedSeqNo : UInt64
  deriving DecidableEq

namespace SequencingManager

/-- The default constructor. -/
def init : SequencingManager := ⟨0, 0, 0, 0⟩

def splitSequenceNo (seqNo : UInt64) : SequencingManager where
  combinedSeqNo := seqNo
  adjLsaSeq := seqNo &&& 0xFFFFF
  corLsaSeq := (seqNo >>> 20) &&& 0xFFFFF
  nameLsaSeq := (seqNo >>> 40) &&& 0xFFFFFF

def combineSequenceNo (sm : SequencingManager) : SequencingManager :=
  { sm with
    combinedSeqNo :=
      (0 : UInt64) ||| sm.adjLsaSeq ||| (sm.corLsaSeq <<< 20) ||| (sm.nameLsaSeq <<< 40) }

/-- `SequencingManager(uint64_t)`, what a receiver makes of a combined number. -/
def ofCombined (seqNo : UInt64) : SequencingManager := splitSequenceNo seqNo

def setNameLsaSeq (sm : SequencingManager) (nlsn : UInt64) : SequencingManager :=
  combineSequenceNo { sm with nameLsaSeq := nlsn }

def setAdjLsaSeq (sm : SequencingManager) (alsn : UInt64) : SequencingManager :=
  combineSequenceNo { sm with adjLsaSeq := alsn }

def setCorLsaSeq (sm : SequencingManager) (clsn : UInt64) : SequencingManager :=
  combineSequenceNo { sm with corLsaSeq := clsn }

def increaseNameLsaSeq (sm : SequencingManager) : SequencingManager :=
  combineSequenceNo { sm with nameLsaSeq := sm.nameLsaSeq + 1 }

def increaseAdjLsaSeq (sm : SequencingManager) : SequencingManager :=
  combineSequenceNo { sm with adjLsaSeq := sm.adjLsaSeq + 1 }

def increaseCorLsaSeq (sm : SequencingManager) : SequencingManager :=
  combineSequenceNo { sm with corLsaSeq := sm.corLsaSeq + 1 }

/-- Start from the sequence file: ten past each saved counter, or zero without a file. -/
def initiateSeqNoFromFile (file : Option UInt64) : SequencingManager :=
  match file with
  | some saved =>
    let sm := splitSequenceNo saved
    combineSequenceNo { sm with
      adjLsaSeq := sm.adjLsaSeq + 10
      corLsaSeq := sm.corLsaSeq + 10
      nameLsaSeq := sm.nameLsaSeq + 10 }
  | none => splitSequenceNo 0

end SequencingManager

end LinkState
