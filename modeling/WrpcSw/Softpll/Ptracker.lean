import WrpcSw.Softpll.Common

/-!
# Phase trackers (`softpll/spll_ptracker.c`)

A phase tracker averages the phase between the local reference and one
reference channel.  The last reference tag is one variable shared by all
trackers.
-/

namespace WrpcSw
namespace Softpll

open CInt

/-- State of a phase tracker (`struct spll_ptracker_state`). -/
structure SpllPtrackerState where
  enabled : Bool := false
  id : Int := 0
  nAvg : Int := 0
  acc : Int := 0
  avgCount : Int := 0
  preserveSign : Int := 0
  phaseVal : Int := 0
  ready : Bool := false
deriving DecidableEq, Repr

def ptrackerInit (s : SpllPtrackerState) (id numAvgs : Int) : SpllPtrackerState :=
  { s with
    id := id
    ready := false
    nAvg := numAvgs
    acc := 0
    avgCount := 0
    enabled := false }

def ptrackerStart (nChanRef : Nat) (s : SpllPtrackerState) (regs : SpllWB) :
    SpllPtrackerState × SpllWB :=
  ({ s with preserveSign := 0, enabled := true, ready := false, acc := 0, avgCount := 0 },
    spllEnableTagger nChanRef (spllEnableTagger nChanRef regs s.id true) nChanRef true)

/-- The wraparound correction, by the quadrant of the sample and the quadrant
of the first sample of the block. -/
def adjTab (index : Int) : Int :=
  if index = 3 then -(2 ^ hpllN) else if index = 12 then 2 ^ hpllN else 0

/-- One sample of a tracker, given the last reference tag. -/
def ptrackerSample (s : SpllPtrackerState) (tagRef tag : Int) : SpllPtrackerState :=
  let delta := i32 (tagRef - tag) % 2 ^ hpllN
  let index := delta / 2 ^ (hpllN - 2)
  if s.avgCount = 0 then
    { s with preserveSign := 4 * index, acc := delta, avgCount := i32 (s.avgCount + 1) }
  else
    let acc := i32 (s.acc + i32 (delta + adjTab (index + s.preserveSign)))
    let avgCount := i32 (s.avgCount + 1)
    if avgCount = s.nAvg then
      { s with phaseVal := acc.tdiv s.nAvg, ready := true, acc := 0, avgCount := 0 }
    else
      { s with acc := acc, avgCount := avgCount }

/-- One tag for the array of trackers and the shared reference tag. -/
def ptrackersUpdate (nChanRef : Nat) (ptrackers : Nat → SpllPtrackerState) (tagRef : Int)
    (tag : Int) (source : Nat) : (Nat → SpllPtrackerState) × Int :=
  if source = nChanRef then (ptrackers, tag)
  else if (ptrackers source).enabled then
    (Function.update ptrackers source (ptrackerSample (ptrackers source) tagRef tag), tagRef)
  else (ptrackers, tagRef)

end Softpll
end WrpcSw
