import ZZ9K.Abi.Entry

namespace ZZ9K.Host

/-- `ZZ9KBoard`, as far as the host layer looks at it -/
structure Board where
  boardAddr : UInt32 := 0
  boardSize : UInt32 := 0
  zorroVersion : UInt16 := 0
  deriving DecidableEq, Repr

/-- `ZZ9KApertureLayout` -/
structure ApertureLayout where
  profile : UInt32 := 0
  apertureSize : UInt32 := 0
  framebufferBase : UInt32 := 0
  framebufferSize : UInt32 := 0
  pipBase : UInt32 := 0
  pipSize : UInt32 := 0
  templateBase : UInt32 := 0
  templateSize : UInt32 := 0
  hostBase : UInt32 := 0
  hostSize : UInt32 := 0
  audioBase : UInt32 := 0
  audioSize : UInt32 := 0
  deriving DecidableEq, Repr

/-- `struct ZZ9KContext` -/
structure Context where
  board : Board := {}
  capabilityBits : UInt32 := 0
  apertureLayout : ApertureLayout := {}
  apertureLayoutValid : Bool := false
  requestRingEntries : UInt32 := 2
  completionRingEntries : UInt32 := 2
  nextRequestId : UInt32 := 1
  syncCookieMask : UInt32 := 0x5aa55aa5
  offloadTimeoutMs : UInt32 := 0
  syncWaitTimeoutMs : UInt32 := 0
  irqArmed : Bool := false
  lateIrqExpected : Bool := false
  deriving DecidableEq, Repr

/-- `zz9k_context_next_request_id`: the counter skips zero when it wraps. -/
def contextNextRequestId (ctx : Context) : UInt32 × Context :=
  let requestId := ctx.nextRequestId
  let following := ctx.nextRequestId+1
  (requestId,{ctx with nextRequestId := if following = 0 then 1 else following})

/-- `zz9k_next_ring_index` -/
def nextRingIndex (index entries : UInt32) : UInt32 :=
  let index := index+1
  if entries ≤ index then 0 else index

end ZZ9K.Host
