import AudioMeet.Theorems.Live.Bridge
import AudioMeet.Theorems.Participant.Leftovers
import AudioMeet.Theorems.Process.PortNumbers

/-! An add that fails leaves nothing behind: no port in use, no slot or edge of a bridge, no socket and no thread. The
    port is what it may leave: `release` gets it narrowed to 16 bits, and finds it in the pool exactly when every port of
    the pool has 16 bits. -/

namespace AudioMeet

theorem NewPart.mode_ne (part : NewPart) : part.mode ≠ .startPassive := by
  unfold mode
  split <;> exact nofun

namespace Host
open Lib Machine Threads
open Server (AddEnds Sequential codeOf respond)

variable {B : Type}

/-- The requests so far came one after the other. The bridges may be in any state. -/
structure Reachable (base count : UInt16) (x : Host B) : Prop where
  server : Sequential base count x.server
  world : ∃ tr, World.machine.Run Any tr x.world

/-- The slots of the participants of the meeting at `m`. -/
def existing (x : Host B) (m : Nat) : List Nat :=
  ((x.server.objects[m]?.map fun meeting => meeting.participants_.toList.map (·.2.2)).getD [])

/-- An add is received in `x` and handled alone to its end in `y`. -/
structure Adds (P : Live.Pjmedia B) (x : Host B) (req : Request) (ans : Answer) (y : Host B) (es : List ServerEvent) :
    Prop where
  server : Server.Serves x.server req ans y.server es
  /-- the section on the meeting at `m` -/
  inSection : ∀ k m calls added, .add k m calls added ∈ es → ∃ meet_id part,
    Server.validate req = .inl (.addLookup meet_id part) ∧
    Section P x.world.parts.length part.mode ans.add (x.existing m) (x.confs m) x.world calls added (y.confs m) y.world ∧
    ∀ m', m' ≠ m → y.confs m' = x.confs m'
  /-- a handler that returns before the section -/
  outside : (∀ k m calls added, .add k m calls added ∉ es) →
    y.confs = x.confs ∧ Passes x.world.parts.length x.world y.world

/-- From `x` to `y` nothing changed but `next_`; the participants that were made in between, of which no meeting knows,
    have no open socket, and their threads were joined. -/
structure Unchanged (P : Live.Pjmedia B) (x y : Host B) : Prop where
  ports : y.server.port_allocator_.used_ = x.server.port_allocator_.used_
  meetings : y.server.meetings_ = x.server.meetings_
  objects : y.server.objects = x.server.objects
  bridges : ∀ m, P.occupied (y.confs m) = P.occupied (x.confs m) ∧ P.connected (y.confs m) = P.connected (x.confs m) ∧
    P.rx_level (y.confs m) = P.rx_level (x.confs m)
  sockets : ∀ f k, y.world.table.fds f = some k → k.owner < x.world.parts.length
  threads : ∀ (i : Nat) p, x.world.parts.length ≤ i → y.world.parts[i]? = some p →
    p.main = .idle ∧ p.stop_flag_ = true ∧ p.AllEnded

/-- Every add that is answered with a code other than 0 changes nothing. -/
def FailuresAtomic (P : Live.Pjmedia B) (base count : UInt16) : Prop :=
  ∀ (x y : Host B) (req : Request) (ans : Answer) (es : List ServerEvent) (code : Nat), Reachable base count x →
    req.isAdd = true → Adds P x req ans y es → codeOf es = some code → code ≠ 0 → Unchanged P x y

section Sections
variable {P : Live.Pjmedia B} {i : Nat} {mode : Threads.Mode} {ans : AddAnswer} {existing : List Nat} {b b' : B} {w w' : World}
  {calls : List AddCall}

/-- The participants made from `w` to `w'` left nothing. -/
def Left (w w' : World) : Prop :=
  (∀ f k, w'.table.fds f = some k → k.owner < w.parts.length) ∧
    ∀ (i : Nat) p, w.parts.length ≤ i → w'.parts[i]? = some p → p.main = .idle ∧ p.stop_flag_ = true ∧ p.AllEnded

theorem left_of_length (hlen : w'.parts.length = w.parts.length) (howned : w'.Owned) : Left w w' := by
  refine ⟨fun f k hf => hlen ▸ howned f k hf, fun i p hi hp => ?_⟩
  have hlt := (List.getElem?_eq_some_iff.mp hp).1
  exact absurd (hlen ▸ hlt) (Nat.not_lt.mpr hi)

theorem left_of_lone {p : Part} (hi : i = w.parts.length) (hlen : w'.parts.length = w.parts.length + 1)
    (howned : w'.Owned) (hlone : LoneAt w' i p) (hmain : p.main = .idle) (hstop : p.stop_flag_ = true) : Left w w' := by
  obtain ⟨hended, hsockets⟩ := hlone.nothing hmain hstop
  refine ⟨fun f k hf => ?_, fun j q hj hq => ?_⟩
  · have hlt := howned f k hf
    have hne := hsockets f k hf
    omega
  · have hlt := (List.getElem?_eq_some_iff.mp hq).1
    obtain rfl : j = i := by omega
    obtain rfl := Option.some.inj (hq.symm.trans hlone.1)
    exact ⟨hmain, hstop, hended⟩

/-- A participant that was started, whether that failed or not, and stopped. -/
theorem left_of_stops {ok : Bool} {w₁ : World} (howned : w.Owned) (hi : i = w.parts.length) (hmode : mode ≠ .startPassive)
    (hstarts : Starts i mode ok w w₁) (hstops : Stops i w₁ w') : Left w w' := by
  obtain ⟨p, hp, hmain, hlen, howned₁⟩ := starts_lone howned hi hmode hstarts
  obtain ⟨q, hq, hidle, hstop, hlen', howned'⟩ := stops_lone howned₁ hp hmain hstops
  exact left_of_lone hi (hlen'.trans hlen) howned' hq hidle hstop

/-- A section that adds nobody leaves nothing, and the bridge as it was. -/
theorem Section.left (hP : P.Lawful) (h : Section P i mode ans existing b w calls false b' w') (howned : w.Owned)
    (hi : i = w.parts.length) (hmode : mode ≠ .startPassive) :
    Left w w' ∧ P.occupied b' = P.occupied b ∧ P.connected b' = P.connected b ∧ P.rx_level b' = P.rx_level b := by
  cases h with
  | taken hpasses => exact ⟨left_of_length (passes_length hpasses) (passes_owned howned hpasses), rfl, rfl, rfl⟩
  | startFails hstarts _ hstops => exact ⟨left_of_stops howned hi hmode hstarts hstops, rfl, rfl, rfl⟩
  | noMediaPort hstarts _ _ hstops => exact ⟨left_of_stops howned hi hmode hstarts hstops, rfl, rfl, rfl⟩
  | addPortFails hstarts _ hadd _ hstops hstops' =>
    obtain ⟨p, hp, hmain, hlen, howned₁⟩ := starts_lone howned hi hmode hstarts
    obtain ⟨q, hq, hidle, -, hlen₂, howned₂⟩ := stops_lone howned₁ hp hmain hstops
    obtain ⟨r, hr, hidle', hstop, hlen', howned'⟩ := stops_lone howned₂ hq hidle hstops'
    exact ⟨left_of_lone hi ((hlen'.trans hlen₂).trans hlen) howned' hr hidle' hstop, hP.add_fails b b' hadd⟩

end Sections

section Servers
variable {s t : Server} {meet_id : Bytes} {part : NewPart} {ans : Answer} {es : List ServerEvent} {code : Nat}
  {base count : UInt16}

/-- The index comes back when its port has 16 bits. -/
theorem used_restored {a : PortAllocator} {i : Nat} (hrange : a.base_ + a.count_ ≤ 65536) (hi : i < a.count_)
    (hfree : a.used_[i]? = some false) : ((a.take i).release (UInt16.ofNat (a.base_ + i))).used_ = a.used_ := by
  have hnat : (UInt16.ofNat (a.base_ + i)).toNat = a.base_ + i :=
    UInt16.toNat_ofNat_of_lt' (show a.base_ + i < 65536 by omega)
  have hin : ¬ ((UInt16.ofNat (a.base_ + i)).toNat < a.base_ ∨ a.base_ + a.count_ ≤ (UInt16.ofNat (a.base_ + i)).toNat) := by
    omega
  have hset : ((a.take i).release (UInt16.ofNat (a.base_ + i))).used_ =
      (a.used_.set i true).set ((UInt16.ofNat (a.base_ + i)).toNat - a.base_) false :=
    congrArg PortAllocator.used_ (if_neg hin)
  obtain ⟨hlt, heq⟩ := List.getElem?_eq_some_iff.mp hfree
  rw [hset, hnat, Nat.add_sub_cancel_left, List.set_set, ← heq]
  exact List.set_getElem_self hlt

/-- What an add that is answered with another code than 0 left of the server. -/
theorem AddEnds.of_failure (h : AddEnds s meet_id part ans t es) (hcode : codeOf es = some code) (hne : code ≠ 0) :
    t.meetings_ = s.meetings_ ∧ t.objects = s.objects ∧
      (t.port_allocator_ = s.port_allocator_ ∧ (∀ k m calls added, .add k m calls added ∉ es) ∨
        ∃ k m port alloc calls, s.port_allocator_.allocate ans.is_port_available = (alloc, some port) ∧
          t.port_allocator_ = alloc.release (UInt16.ofNat port) ∧ .add k m calls false ∈ es) := by
  cases h with
  | unknown _ => exact ⟨rfl, rfl, Or.inl ⟨rfl, by simp⟩⟩
  | noPort _ _ => exact ⟨rfl, rfl, Or.inl ⟨rfl, by simp⟩⟩
  | crashed _ _ _ _ => cases hcode
  | refused _ halloc _ _ => exact ⟨rfl, rfl, Or.inr ⟨_, _, _, _, _, halloc, rfl, List.mem_cons_self⟩⟩
  | @added m port meeting meeting' alloc calls _ _ _ _ =>
    have hcode : (respond (s.success part port)).code = some code := by simpa [codeOf] using hcode
    exact absurd ((Server.code_respond (by decide) (by decide)).mp hcode).1 hne

/-- No port is lost while all have 16 bits. -/
theorem AddEnds.used_of_failure (h : AddEnds s meet_id part ans t es) (hcode : codeOf es = some code) (hne : code ≠ 0)
    (hrange : s.port_allocator_.base_ + s.port_allocator_.count_ ≤ 65536) :
    t.port_allocator_.used_ = s.port_allocator_.used_ := by
  obtain ⟨-, -, ⟨hsame, -⟩ | ⟨k, m, port, alloc, calls, halloc, hreleased, -⟩⟩ := AddEnds.of_failure h hcode hne
  · rw [hsame]
  · rcases PortAllocator.allocate_cases halloc with ⟨-, hr⟩ | ⟨index, hindex, hfree, rfl, hr⟩
    · cases hr
    · obtain rfl := Option.some.inj hr
      rw [hreleased]
      exact used_restored hrange hindex hfree

end Servers

section Results
variable {P : Live.Pjmedia B} {x y : Host B} {req : Request} {ans : Answer} {es : List ServerEvent} {code : Nat}
  {base count : UInt16}

theorem Adds.unchanged (hP : P.Lawful) (h : Adds P x req ans y es) (hx : Reachable base count x) (hadd : req.isAdd = true)
    (hcode : codeOf es = some code) (hne : code ≠ 0) (hrange : base.toNat + count.toNat ≤ 65536) : Unchanged P x y := by
  obtain ⟨tr, hworld⟩ := hx.world
  have howned : x.world.Owned := run_owned hworld
  have hregistry := hx.server.registryInv
  have hconfig := hx.server.config
  -- Without a section the bridges and the participants are none of its business.
  have hquiet : (∀ k m calls added, .add k m calls added ∉ es) → Left x.world y.world ∧ y.confs = x.confs := by
    intro hnone
    obtain ⟨hconfs, hpasses⟩ := h.outside hnone
    exact ⟨left_of_length (passes_length hpasses) (passes_owned howned hpasses), hconfs⟩
  rcases Server.validate_add hadd with ⟨meet_id, part, -, hvalid⟩ | ⟨-, msg, -, hvalid⟩
  · obtain ⟨t, es', hserves, hends⟩ := Server.serves_add ans h.server.alive
      (fun m hm => (hregistry.keyed meet_id m hm).imp fun _ => And.left) hvalid
    obtain ⟨rfl, rfl⟩ := hserves.unique h.server
    have hused := AddEnds.used_of_failure hends hcode hne (by rw [hconfig.1, hconfig.2]; exact hrange)
    obtain ⟨hmeetings, hobjects, ⟨-, hnone⟩ | ⟨k, m, port, alloc, calls, -, -, hmem⟩⟩ := AddEnds.of_failure hends hcode hne
    · obtain ⟨hleft, hconfs⟩ := hquiet hnone
      exact ⟨hused, hmeetings, hobjects, fun m => by rw [hconfs]; exact ⟨rfl, rfl, rfl⟩, hleft.1, hleft.2⟩
    · obtain ⟨meet_id', part', -, hsection, hothers⟩ := h.inSection k m calls false hmem
      obtain ⟨hleft, hbridge⟩ := hsection.left hP howned rfl part'.mode_ne
      refine ⟨hused, hmeetings, hobjects, fun m' => ?_, hleft.1, hleft.2⟩
      by_cases hm : m' = m
      · rw [hm]
        exact hbridge
      · rw [hothers m' hm]
        exact ⟨rfl, rfl, rfl⟩
  · obtain ⟨ht, rfl⟩ := (Server.receive_refuses h.server.alive hvalid).unique h.server
    obtain ⟨hleft, hconfs⟩ := hquiet (by simp)
    refine ⟨by rw [ht]; rfl, by rw [ht]; rfl, by rw [ht]; rfl, fun m => ?_, hleft.1, hleft.2⟩
    rw [hconfs]
    exact ⟨rfl, rfl, rfl⟩

/-! ### A participant that gets no socket -/

/-- The participant after its start failed. -/
def failedStart : World := { parts := [{ Part.new .start with main := .idle }] }

def failedStopped : World := { parts := [{ Part.new .start with main := .idle, stop_flag_ := true }] }

instance (i : Nat) (w : World) : DecidablePred (During i w)
  | .new _ => .isFalse id
  | .main j _ => inferInstanceAs (Decidable (j = i ∧ ∀ p ∈ w.parts[i]?, p.main ≠ .idle))
  | .accept j ans => inferInstanceAs (Decidable (j = i → ans.fd = none))
  | .rx _ _ | .tx _ _ | .put _ _ | .wake _ => .isTrue trivial

theorem starts_failed : Starts 0 .start false {} failedStart := by
  have hok : During 0 { parts := [Part.new .start] } (.main 0 {}) := by decide
  exact ⟨{}, { parts := [Part.new .start] }, _, ⟨[], .refl⟩, rfl, ⟨[], .single hok rfl⟩, rfl, rfl, by decide⟩

theorem stops_failed : Stops 0 failedStart failedStopped := by
  have hmeets : World.machine.Meets (During 0)
      { parts := [{ Part.new .start with main := .stopQueue, stop_flag_ := true }] } (List.replicate 7 (.main 0 {})) :=
    meets_of_checks (by decide)
  exact ⟨_, _, rfl, ⟨[], steps_of_exec hmeets rfl⟩, rfl, rfl⟩

/-- An add to a first meeting whose participant gets no socket. -/
theorem exists_failed_add (P : Live.Pjmedia B) (b : B) (avail : UInt16 → Bool) {alloc : PortAllocator} {port : Nat}
    (halloc : (PortAllocator.new base count).allocate avail = (alloc, some port)) :
    ∃ (x y : Host B) (ans : Answer) (es : List ServerEvent), Reachable base count x ∧ Adds P x Server.addA ans y es ∧
      codeOf es = some 2 ∧ x.server.port_allocator_ = .new base count ∧
      y.server.port_allocator_ = alloc.release (UInt16.ofNat port) := by
  obtain ⟨s, meeting, hseq, hc, -, hpool, hm, hobj, habsent, -, -⟩ := Server.created_first base count
  have hvalid : Server.validate Server.addA = .inl (.addLookup (Server.hexId 1) { part_id := ascii "a" }) := rfl
  obtain ⟨t, es, hserves, hends⟩ := Server.serves_add { is_port_available := avail, add := ⟨false, true, none⟩ } hc
    (fun m hm => (hseq.registryInv.keyed _ m hm).imp fun _ => And.left) hvalid
  have hsection : ∀ {m' port' : Nat} {meeting' : Meeting} {alloc' : PortAllocator} {result : AddResult}
      {calls : List AddCall}, s.meetings_[Server.hexId 1]? = some m' →
      s.port_allocator_.allocate avail = (alloc', some port') → s.objects[m']? = some meeting' →
      Server.addTo meeting' { part_id := ascii "a" } port' ⟨false, true, none⟩ = (result, calls) →
      alloc' = alloc ∧ port' = port ∧ result = .nullptr ∧ calls = [.start] := by
    intro m' port' meeting' alloc' result calls hm' halloc' hobj' hadd'
    obtain rfl := Option.some.inj (hm.symm.trans hm')
    obtain rfl := Option.some.inj (hobj.symm.trans hobj')
    rw [hpool, halloc] at halloc'
    cases halloc'
    simp only [Server.addTo, Meeting.add_participant, Meeting.add, NewPart.participant, habsent, Bool.not_false,
      Bool.false_eq_true, if_false, if_true, Prod.mk.injEq] at hadd'
    exact ⟨rfl, rfl, hadd'.1.symm, hadd'.2.symm⟩
  refine ⟨⟨s, fun _ => b, {}⟩, ⟨t, fun _ => b, failedStopped⟩,
    { is_port_available := avail, add := ⟨false, true, none⟩ }, es, ⟨hseq, [], .init rfl⟩, ?_⟩
  cases hends with
  | unknown hm' =>
    rw [hm] at hm'
    cases hm'
  | noPort _ halloc' =>
    rw [hpool, halloc] at halloc'
    cases halloc'
  | crashed hm' halloc' hobj' hadd' => obtain ⟨-, -, ⟨⟩, -⟩ := hsection hm' halloc' hobj' hadd'
  | added hm' halloc' hobj' hadd' => obtain ⟨-, -, ⟨⟩, -⟩ := hsection hm' halloc' hobj' hadd'
  | @refused m' port' meeting' alloc' calls hm' halloc' hobj' hadd' =>
    obtain ⟨rfl, rfl, -, rfl⟩ := hsection hm' halloc' hobj' hadd'
    refine ⟨⟨hserves, fun k m calls added hmem => ?_, fun hnone => absurd List.mem_cons_self (hnone _ _ _ _)⟩, ?_, hpool, rfl⟩
    · obtain ⟨-, -, rfl, rfl⟩ : k = s.requests.length ∧ m = m' ∧ calls = [.start] ∧ added = false := by simpa using hmem
      exact ⟨_, _, hvalid, .startFails starts_failed rfl stops_failed, fun _ _ => rfl⟩
    · have hcode : (respond (Server.refusal meeting' { part_id := ascii "a" })).code = some 2 :=
        Server.code_null 2 _ (by decide) (by decide)
      simpa [codeOf] using hcode

/-- A port that does not have 16 bits stays in use. -/
theorem not_atomic (P : Live.Pjmedia B) (b : B) (hrange : 65536 < base.toNat + count.toNat) : ¬ FailuresAtomic P base count := by
  intro hall
  have hlt := base.toNat_lt
  have hlt' := count.toNat_lt
  have hport : base.toNat + (65536 - base.toNat) = 65536 := by omega
  have hindex : 65536 - base.toNat < count.toNat := by omega
  obtain ⟨alloc, port, halloc, hzero⟩ := Server.allocate_zero hindex (by rw [hport]; rfl)
  obtain ⟨x, y, ans, es, hx, hadds, hcode, hpool, hpool'⟩ := exists_failed_add P b (· == 0) halloc
  have hused := (hall x y Server.addA ans es 2 hx rfl hadds hcode (by decide)).ports
  rw [hpool, hpool', hzero] at hused
  rcases PortAllocator.allocate_cases halloc with ⟨-, hr⟩ | ⟨i, hi, hfree, rfl, -⟩
  · cases hr
  · have hbase : (0 : UInt16).toNat < (PortAllocator.new base count).base_ := show 0 < base.toNat by omega
    have hlost : ((PortAllocator.new base count).take i).release 0 = (PortAllocator.new base count).take i :=
      if_pos (Or.inl hbase)
    have htaken : ((PortAllocator.new base count).take i).used_[i]? = some true :=
      List.getElem?_set_self (List.getElem?_eq_some_iff.mp hfree).1
    rw [hlost] at hused
    rw [hused, hfree] at htaken
    cases htaken

end Results

/-- Every failed add leaves everything as it was exactly when all ports of the pool have 16 bits. -/
theorem failed_adds_change_nothing [Nonempty B] {P : Live.Pjmedia B} (hP : P.Lawful) (base count : UInt16) :
    FailuresAtomic P base count ↔ base.toNat + count.toNat ≤ 65536 := by
  constructor
  · intro hall
    obtain ⟨b⟩ := ‹Nonempty B›
    exact Nat.not_lt.mp fun hrange => not_atomic P b hrange hall
  · exact fun hrange x y req ans es code hx hadd hadds hcode hne => hadds.unchanged hP hx hadd hcode hne hrange

theorem failed_adds_change_nothing_board : FailuresAtomic Live.Session.board 10000 4 ∧
    ∃ (x y : Host Live.Session.Board) (ans : Answer) (es : List ServerEvent), Reachable 10000 4 x ∧
      Adds Live.Session.board x Server.addA ans y es ∧ codeOf es = some 2 ∧ Unchanged Live.Session.board x y := by
  have hnonempty : Nonempty Live.Session.Board := ⟨.new⟩
  have hatomic := (failed_adds_change_nothing Live.Session.board_lawful 10000 4).mpr (by decide)
  have halloc : ((PortAllocator.new 10000 4).allocate fun _ => true).2 = some 10000 := by decide
  obtain ⟨x, y, ans, es, hx, hadds, hcode, -, -⟩ :=
    exists_failed_add Live.Session.board .new (fun _ => true) (Prod.ext rfl halloc)
  exact ⟨hatomic, x, y, ans, es, hx, hadds, hcode, hatomic x y Server.addA ans es 2 hx rfl hadds hcode (by decide)⟩

/-- The second port of the pool is 65536, and `release` gets 0. -/
theorem failed_add_keeps_port : ¬ ∀ base count : UInt16, FailuresAtomic Live.Session.board base count := by
  intro hall
  have hrange : 65536 < (65535 : UInt16).toNat + (2 : UInt16).toNat := by decide
  exact not_atomic Live.Session.board .new hrange (hall 65535 2)

end Host
end AudioMeet
