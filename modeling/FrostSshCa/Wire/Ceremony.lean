import FrostSshCa.Wire.Text

/-!
# The two ceremonies

DKG and refresh run the same two rounds under different message types: a start
word, a package relayed to everybody, a package for each peer, a notice of each
signer and an answer of the coordinator to the last one.
-/

namespace FrostSshCa

inductive Ceremony where
  | dkg | refresh
  deriving DecidableEq, Repr

namespace Ceremony

def mode : Ceremony → CoordMode
  | dkg => .dkg
  | refresh => .refresh

/-- A refresh counts the notice of a signer that has sent its packages, a DKG that of
one that has its result. -/
def eager : Ceremony → Bool
  | dkg => false
  | refresh => true

def start : Ceremony → MsgType
  | dkg => .startDkg
  | refresh => .startRefresh

def word : Ceremony → Bytes
  | dkg => ascii "START_DKG"
  | refresh => ascii "START_REFRESH"

def round1 : Ceremony → MsgType
  | dkg => .round1Pkg
  | refresh => .refreshR1

def relayR1 : Ceremony → MsgType
  | dkg => .relayR1
  | refresh => .relayRefreshR1

def round2 : Ceremony → MsgType
  | dkg => .round2Pkg
  | refresh => .refreshR2

def relayR2 : Ceremony → MsgType
  | dkg => .relayR2
  | refresh => .relayRefreshR2

def complete : Ceremony → MsgType
  | dkg => .r2Complete
  | refresh => .refreshR2Complete

def finish : Ceremony → MsgType
  | dkg => .dkgDone
  | refresh => .refreshFinalize

end Ceremony

end FrostSshCa
