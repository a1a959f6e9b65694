import AudioMeet.Process

/-! The calls of PJLIB and PJMEDIA that the sections of the requests make on a meeting, with the pointers they pass. -/

namespace AudioMeet
open Lib

/-- A call; each argument tells whether the pointer is not null. -/
inductive PjCall
  | pj_pool_zalloc (pool : Bool)
  | pjmedia_conf_add_port (conf pool : Bool)
  | pjmedia_conf_connect_port (conf : Bool)
  | pjmedia_conf_adjust_rx_level (conf : Bool)
  | pjmedia_conf_remove_port (conf : Bool)
  | pjmedia_clock_stop (clock : Bool)
  | pjmedia_clock_destroy (clock : Bool)
  | pjmedia_conf_destroy (conf : Bool)
  | pj_pool_release (pool : Bool)
deriving DecidableEq

/-- No null pointer is passed. -/
def PjCall.NoNull : PjCall → Prop
  | .pj_pool_zalloc p | .pjmedia_conf_connect_port p | .pjmedia_conf_adjust_rx_level p | .pjmedia_conf_remove_port p
  | .pjmedia_clock_stop p | .pjmedia_clock_destroy p | .pjmedia_conf_destroy p | .pj_pool_release p => p = true
  | .pjmedia_conf_add_port conf pool => conf = true ∧ pool = true

namespace Meeting

/-- The calls in the section of an `add_*`: for the media port, for its slot, and both ways to every participant. -/
def addCalls (m : Meeting) : AddResult × List AddCall → List PjCall
  | (result, calls) =>
    (calls.flatMap fun
      | .start => []
      | .createMediaPort pool_ => [.pj_pool_zalloc pool_]
      | .confAddPort conf_ => [.pjmedia_conf_add_port conf_ m.pool_]) ++
    match result with
    | .added _ => m.participants_.toList.flatMap fun _ =>
        [.pjmedia_conf_connect_port m.conf_, .pjmedia_conf_connect_port m.conf_]
    | _ => []

/-- `set_participant_mute` -/
def muteCalls (m : Meeting) (part_id : Bytes) : List PjCall :=
  if m.participants_.contains part_id then [.pjmedia_conf_adjust_rx_level m.conf_] else []

/-- `remove_participant` -/
def removeCalls (m : Meeting) (part_id : Bytes) : List PjCall :=
  if m.participants_.contains part_id then [.pjmedia_conf_remove_port m.conf_] else []

/-- The first part of `stop`. -/
def clockCalls (m : Meeting) : List PjCall :=
  if m.clock_ then [.pjmedia_clock_stop m.clock_, .pjmedia_clock_destroy m.clock_] else []

/-- The section of `stop`. -/
def stopCalls (m : Meeting) : List PjCall :=
  (m.participants_.toList.map fun _ => .pjmedia_conf_remove_port m.conf_) ++
    (if m.conf_ then [.pjmedia_conf_destroy m.conf_] else []) ++
    if m.pool_ then [.pj_pool_release m.pool_] else []

end Meeting

namespace Server

/-- The calls that the next section of a request makes on a meeting. -/
def sectionCalls (s : Server) (ans : Answer) : ReqPc → List PjCall
  | .addSection m part port => (s.objects[m]?.map fun x => x.addCalls (addTo x part port ans.add)).getD []
  | .muteSection m part_id _ => (s.objects[m]?.map (·.muteCalls part_id)).getD []
  | .deleteSection m part_id => (s.objects[m]?.map (·.removeCalls part_id)).getD []
  | .destroyClock m _ => (s.objects[m]?.map (·.clockCalls)).getD []
  | .destroySection m _ => (s.objects[m]?.map (·.stopCalls)).getD []
  | _ => []

/-- The calls of a step of the process; `~Meeting` calls `stop`. -/
def pjCalls (s : Server) : ProcessAct → List PjCall
  | .request (.receive _) => []
  | .request (.go i ans) => (s.requests[i]?.map (s.sectionCalls ans)).getD []
  | .destruct m => (s.objects[m]?.map fun x => x.clockCalls ++ x.stopCalls).getD []

end Server
end AudioMeet
