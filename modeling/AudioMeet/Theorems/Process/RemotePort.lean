import AudioMeet.Theorems.Process.AddCodes
import AudioMeet.Theorems.Stoi

/-! The remote port of a passive add: which strings are taken for one, and where the participant connects to. -/

namespace AudioMeet
open Lib Machine

/-- The handler of an add that asks for `part`. -/
def ReqPc.Adds (part : NewPart) : ReqPc → Prop
  | .addLookup _ part' | .addAllocate _ part' | .addSection _ part' _ | .addRelease _ part' _ => part' = part
  | .addExisting _ _ | .done => True
  | _ => False

namespace Server

/-! ### A handler keeps what its request asked for -/

section Adds
variable {s t u : Server} {i : Nat} {ans : Answer} {pc : ReqPc} {part : NewPart} {seen : List ServerEvent} {turn : Turn}

theorem Section.adds (h : s.Section i ans pc u seen turn) (hadds : pc.Adds part) :
    turn.All (ReqPc.Adds part) fun _ => True := by
  cases h with
  | addFound _ | allocated _ | refused _ _ => exact hadds
  | _ => trivial

theorem step_adds {a : ServerAct} {es : List ServerEvent} (hpc : s.requests[i]? = some pc) (h : pc.Adds part)
    (hs : s.step a = some (t, es)) : ∃ pc', t.requests[i]? = some pc' ∧ pc'.Adds part := by
  have hd := (step_does hs).2
  obtain ⟨-, ⟨req, rfl, -⟩ | ⟨j, ans, pc₁, rfl, hpc₁, hgo⟩⟩ := receives_or_goes hs
  · cases hd with
    | received _ _ => exact ⟨pc, getElem?_snoc_some.mpr (Or.inr hpc), h⟩
  · by_cases hij : i = j
    · subst hij
      obtain rfl := Option.some.inj (hpc.symm.trans hpc₁)
      obtain ⟨-, ht, -⟩ | ⟨pc', hadds, ht, -⟩ | ⟨_, -, ht, -⟩ := (goOn_took hgo).leaves fun _ _ _ hsection => hsection.adds h
      · exact ⟨pc, ht ▸ hpc, h⟩
      · exact ⟨pc', (goes_set hpc ht i pc').mpr (Or.inl ⟨rfl, rfl⟩), hadds⟩
      · exact ⟨.done, (goes_set hpc ht i .done).mpr (Or.inl ⟨rfl, rfl⟩), trivial⟩
    · exact ⟨pc, (hd.others hij).trans hpc, h⟩

theorem steps_adds {base count : UInt16} {ok : Server → ProcessAct → Prop} {tr : List Account}
    (hs : (process base count).Steps ok s tr t) (hpc : s.requests[i]? = some pc) (h : pc.Adds part) :
    ∃ pc', t.requests[i]? = some pc' ∧ pc'.Adds part := by
  induction hs with
  | refl => exact ⟨pc, hpc, h⟩
  | tail _ _ hstep ih =>
    obtain ⟨pc', hpc', h'⟩ := ih
    cases process_does hstep with
    | request hs => exact step_adds hpc' h' hs
    | destruct _ _ _ _ => exact ⟨pc', hpc', h'⟩

/-- Only the section of an add that succeeds is seen to add a participant. -/
theorem Section.joins {j m : Nat} {calls : List AddCall} (h : s.Section i ans pc u seen turn)
    (hadd : .add j m calls true ∈ seen) :
    ∃ part port meeting meeting', pc = .addSection m part port ∧ s.objects[m]? = some meeting ∧
      addTo meeting part port ans.add = (.added meeting', calls) ∧ u.objects = s.objects.set m meeting' := by
  cases h with
  | added hm hjoins =>
    cases List.mem_singleton.mp hadd
    exact ⟨_, _, _, _, rfl, hm, hjoins, rfl⟩
  | _ => simp at hadd

/-- The participant that an add makes is in its meeting when the section is seen to have added one. -/
theorem step_joins {m : Nat} {calls : List AddCall} {es : List ServerEvent} (hpc : s.requests[i]? = some pc)
    (h : pc.Adds part) (hs : s.step (.go i ans) = some (t, es)) (hadd : .add i m calls true ∈ es) :
    ∃ meet_id port slot, PartAt t m part.part_id (part.participant meet_id port) slot := by
  obtain ⟨pc₁, hpc₁, hgo⟩ := go_goes hs
  obtain rfl := Option.some.inj (hpc.symm.trans hpc₁)
  obtain ⟨u, seen, turn, hsection, rfl, rfl⟩ := goOn_took hgo
  have hseen : .add i m calls true ∈ seen := by
    cases turn <;> simpa [Turn.leave, goto, finish] using hadd
  obtain ⟨part', port, meeting, meeting', rfl, hm, hjoins, hobj⟩ := hsection.joins hseen
  obtain rfl : part' = part := h
  rw [addTo_eq] at hjoins
  obtain ⟨slot, -, hjoin, -⟩ := Meeting.add_joins hjoins
  have hleave : (turn.leave u i).1.objects = s.objects.set m meeting' := by
    cases turn <;> exact hobj
  exact ⟨_, _, slot, (partAt_set hm hleave).mpr (Or.inl ⟨rfl, (hjoin.getElem? _).mpr (Or.inl ⟨rfl, rfl⟩)⟩)⟩

end Adds

/-! ### Which ports are taken -/

/-- The whole string is a numeral, of a port from 1 to 65535. -/
def IsPort (s : Bytes) (n : Nat) : Prop := Numeral s n ∧ 1 ≤ n ∧ n ≤ 65535

/-- The handler goes past its checks, to `get_meeting`. -/
def PassesChecks (s : Server) (req : Request) : Prop :=
  ∃ meet_id part, (s.receive req).1.requests[s.requests.length]? = some (.addLookup meet_id part)

/-- Port `n` of `ip`, as `startSplit` fills it into the address that it connects to. -/
def address (ip : Bytes) (n : Nat) : Bytes × Bytes := (ip, [UInt8.ofNat (n / 256), UInt8.ofNat (n % 256)])

/-- Whatever the process does then, the request adds `part_id`, and no other, to connect to port `n` of `ip`. -/
structure ConnectsTo (s : Server) (req : Request) (part_id ip : Bytes) (n : Nat) : Prop where
  /-- the participant that the section of the add starts -/
  started : ∀ base count tr t, (process base count).Steps Any (s.receive req).1 tr t →
    ∀ m part rx_port meeting, t.requests[s.requests.length]? = some (.addSection m part rx_port) →
      t.objects[m]? = some meeting →
      ∃ p, addTo meeting part rx_port = meeting.add p ∧ p.part_id_ = part_id ∧ p.tx_addr = address ip n
  /-- and the one that is in the meeting after it -/
  added : ∀ base count tr t, (process base count).Steps Any (s.receive req).1 tr t →
    ∀ ans u es m calls, t.step (.go s.requests.length ans) = some (u, es) → .add s.requests.length m calls true ∈ es →
      ∃ p slot, PartAt u m part_id p slot ∧ p.tx_addr = address ip n

/-- The request is answered with code 4, and nothing else changes. -/
def Refused (s : Server) (req : Request) : Prop :=
  ∃ response, s.receive req =
    ({ s with requests := s.requests ++ [.done] }, [.responded s.requests.length response]) ∧ response.code = some 4

structure ParsedExactly (s : Server) (req : Request) (part_id ip port : Bytes) : Prop where
  passes : PassesChecks s req ↔ ∃ n, IsPort port n
  connects : ∀ n, IsPort port n → ConnectsTo s req part_id ip n
  refuses : (¬ ∃ n, IsPort port n) → Refused s req

/-- It is not a numeral, but `std::stoi` reads one of a port from it: there is white space or a plus sign before the
    digits, or something after them. -/
def Garbled (port : Bytes) : Prop :=
  ∃ ws sign digits rest n, Reads port ws sign digits rest ∧ IsPort digits n ∧ digits ≠ port

theorem IsPort.stoi {digits : Bytes} {n : Nat} {port ws sign rest : Bytes} (h : IsPort digits n)
    (hreads : Reads port ws sign digits rest) : stoi port = some (n : Int) := by
  obtain ⟨hnum, h1, h2⟩ := h
  rw [hreads.stoi, hnum.value, if_pos (by omega)]

/-- `std::stoi` comes to a port exactly where it reads one. -/
theorem stoi_port {port : Bytes} {v : Int} (h : stoi port = some v) (h1 : 1 ≤ v) (h2 : v ≤ 65535) :
    (∃ n, IsPort port n) ∨ Garbled port := by
  obtain ⟨ws, sign, digits, rest, hreads, hv⟩ := exists_reads h h1
  have hport : IsPort digits (decimal digits) := ⟨⟨hreads.ne_nil, hreads.digit, rfl⟩, by omega, by omega⟩
  by_cases heq : digits = port
  · exact Or.inl ⟨_, heq ▸ hport⟩
  · exact Or.inr ⟨ws, sign, digits, rest, _, hreads, hport, heq⟩

theorem not_isPort_of_garbled {port : Bytes} (h : Garbled port) : ¬ ∃ n, IsPort port n := by
  rintro ⟨n, ⟨-, hdigits, -⟩, -⟩
  obtain ⟨ws, sign, digits, rest, -, hreads, -, hne⟩ := h
  exact hne (hreads.whole hdigits)

/-! ### What the handler makes of them -/

/-- A port below 65536 in network order. -/
theorem be16_ofNat {n : Nat} (h : n < 65536) : be16 (UInt16.ofNat n) = [UInt8.ofNat (n / 256), UInt8.ofNat (n % 256)] := by
  have hn : (UInt16.ofNat n).toNat = n := UInt16.toNat_ofNat_of_lt' h
  simp only [be16, List.cons.injEq, and_true, ← UInt8.toNat_inj, toNat_shift16, toNat_and_FF16, hn, UInt8.toNat_ofNat']
  omega

section Handler
variable {s : Server} {params : Params} {meet_id part_id ip port : Bytes}

theorem receive_refused {req : Request} {msg : String} (hmsg : Utf8.Valid (ascii msg))
    (hv : validate req = .inr (body 4 msg .null)) : Refused s req :=
  ⟨respond (body 4 msg .null), by rw [receive, hv], (code_respond_null (by decide) hmsg).mpr rfl⟩

theorem not_passesChecks_of_refused {req : Request} (h : Refused s req) : ¬ PassesChecks s req := by
  obtain ⟨response, hreceive, -⟩ := h
  rintro ⟨meet_id, part, hpc⟩
  rw [hreceive] at hpc
  simp at hpc

theorem refused_of_no_port (hport : params.port = some port) (h : ∀ v, stoi port = some v → ¬ (1 ≤ v ∧ v ≤ 65535)) :
    Refused s (.addPassiveAudioMeetPart params) := by
  have hadd : (Request.addPassiveAudioMeetPart params).isAdd = true := rfl
  rcases validate_add hadd with ⟨meet_id', part, hvalid, -⟩ | ⟨-, msg, hmsg, hv⟩
  · cases hvalid with
    | passive _ _ _ _ _ _ hport' hv h1 h2 =>
      obtain rfl := Option.some.inj (hport.symm.trans hport')
      exact absurd ⟨h1, h2⟩ (h _ hv)
  · exact receive_refused hmsg hv

variable (hmeet : given params.meetId = some meet_id) (hpart : given params.partId = some part_id)
  (hip : given params.ip = some ip) (hport : params.port = some port)
include hmeet hpart hip hport

/-- The handler takes the port that `std::stoi` comes to. -/
theorem validate_port {v : Int} (hv : stoi port = some v) (h1 : 1 ≤ v) (h2 : v ≤ 65535) :
    validate (.addPassiveAudioMeetPart params) =
      .inl (.addLookup meet_id { part_id, remote := some (ip, UInt16.ofNat v.toNat) }) := by
  have hne : port ≠ [] := by
    rintro rfl
    cases hv
  have hgiven : given params.port = some port := given_eq_some.mpr ⟨hport, hne⟩
  simp only [validate, hmeet, hpart, hip, hgiven, hv, Option.getD_some]
  rw [if_neg (by omega)]

theorem receive_port {v : Int} (hv : stoi port = some v) (h1 : 1 ≤ v) (h2 : v ≤ 65535) :
    (s.receive (.addPassiveAudioMeetPart params)).1.requests[s.requests.length]? =
      some (.addLookup meet_id { part_id, remote := some (ip, UInt16.ofNat v.toNat) }) := by
  rw [receive, validate_port hmeet hpart hip hport hv h1 h2]
  exact getElem?_snoc_some.mpr (Or.inl ⟨rfl, rfl⟩)

theorem connectsTo_port {n : Nat} (h : IsPort port n) :
    ConnectsTo s (.addPassiveAudioMeetPart params) part_id ip n := by
  have hv := h.stoi h.1.reads
  obtain ⟨-, h1, h2⟩ := h
  have hreceive := receive_port (s := s) hmeet hpart hip hport hv (by omega) (by omega)
  have haddr : ∀ meet_id rx_port, (NewPart.participant { part_id, remote := some (ip, UInt16.ofNat n) } meet_id
      rx_port).tx_addr = address ip n := fun meet_id rx_port => congrArg (Prod.mk ip) (be16_ofNat (by omega))
  constructor
  · intro base count tr t hsteps m part rx_port meeting hpc hm
    obtain ⟨pc', hpc', hadds⟩ := steps_adds hsteps hreceive rfl
    obtain rfl := Option.some.inj (hpc.symm.trans hpc')
    obtain rfl : part = _ := hadds
    exact ⟨_, funext fun ans => addTo_eq meeting _ rx_port ans, rfl, haddr _ _⟩
  · intro base count tr t hsteps ans u es m calls hs hadd
    obtain ⟨pc', hpc', hadds⟩ := steps_adds hsteps hreceive rfl
    obtain ⟨meet_id', rx_port, slot, hq⟩ := step_joins hpc' hadds hs hadd
    exact ⟨_, slot, hq, haddr _ _⟩

/-- The port is parsed exactly, but for the strings that `std::stoi` reads a port from without reading them whole. -/
theorem parsed_exactly_iff : ParsedExactly s (.addPassiveAudioMeetPart params) part_id ip port ↔ ¬ Garbled port := by
  constructor
  · intro hexact hgarbled
    have hno := not_isPort_of_garbled hgarbled
    obtain ⟨ws, sign, digits, rest, n, hreads, hport', -⟩ := hgarbled
    have hv := hport'.stoi hreads
    obtain ⟨-, h1, h2⟩ := hport'
    exact hno (hexact.passes.mp ⟨_, _, receive_port hmeet hpart hip hport hv (by omega) (by omega)⟩)
  · intro hgarbled
    have hrefused : (¬ ∃ n, IsPort port n) → Refused s (.addPassiveAudioMeetPart params) := fun hno =>
      refused_of_no_port hport fun v hv ⟨h1, h2⟩ => (stoi_port hv h1 h2).elim hno hgarbled
    refine ⟨⟨fun hpasses => ?_, fun ⟨n, hn⟩ => ?_⟩, fun n => connectsTo_port hmeet hpart hip hport, hrefused⟩
    · by_contra hno
      exact not_passesChecks_of_refused (hrefused hno) hpasses
    · have hv := hn.stoi hn.1.reads
      obtain ⟨-, h1, h2⟩ := hn
      exact ⟨_, _, receive_port hmeet hpart hip hport hv (by omega) (by omega)⟩

end Handler

/-- A request to add a participant that connects to `port`. -/
def toPort (port : String) : Params :=
  { meetId := some (ascii "m"), partId := some (ascii "p"), ip := some (ascii "10.0.0.5"), port := some (ascii port) }

theorem parsed_exactly_eighty : IsPort (ascii "80") 80 ∧ ParsedExactly { listen_ip_ := [], port_allocator_ := .new 10000 4 }
    (.addPassiveAudioMeetPart (toPort "80")) (ascii "p") (ascii "10.0.0.5") (ascii "80") := by
  have hdigits : (ascii "80").all isDigit = true := by decide
  have hport : IsPort (ascii "80") 80 := ⟨⟨by decide, List.all_eq_true.mp hdigits, by decide⟩, by decide, by decide⟩
  exact ⟨hport, (parsed_exactly_iff rfl rfl rfl rfl).mpr fun h => not_isPort_of_garbled h ⟨80, hport⟩⟩

/-- The port `80x` is taken for 80. -/
theorem takes_garbled_port : ¬ ∀ (s : Server) (params : Params) (meet_id part_id ip port : Bytes),
    given params.meetId = some meet_id → given params.partId = some part_id → given params.ip = some ip →
    params.port = some port → ParsedExactly s (.addPassiveAudioMeetPart params) part_id ip port := by
  intro h
  have hexact := h { listen_ip_ := [], port_allocator_ := .new 10000 4 } (toPort "80x") _ _ _ _ rfl rfl rfl rfl
  obtain ⟨n, ⟨-, hdigits, -⟩, -⟩ := hexact.passes.mp ⟨_, _, rfl⟩
  exact absurd (hdigits 0x78 (by decide)) (by decide)

end Server
end AudioMeet
