import AudioMeet.Theorems.Live.Roster

/-! A bridge that mirrors a roster, up to the port that a call has in hand. -/

namespace AudioMeet.Live
open Lib

/-- What a meeting relies on in PJMEDIA. -/
structure Pjmedia.Lawful {B : Type} (P : Pjmedia B) : Prop where
  add_fails : ∀ b b', P.conf_add_port b = (b', none) →
    P.occupied b' = P.occupied b ∧ P.connected b' = P.connected b ∧ P.rx_level b' = P.rx_level b
  add : ∀ b b' slot, P.conf_add_port b = (b', some slot) →
    ¬P.occupied b slot ∧ ¬P.Muted b' slot ∧ (∀ n, P.occupied b' n ↔ P.occupied b n ∨ n = slot) ∧
      (∀ m n, P.connected b' m n ↔ P.connected b m n ∧ m ≠ slot ∧ n ≠ slot) ∧
      ∀ n, n ≠ slot → P.rx_level b' n = P.rx_level b n
  connect : ∀ b src sink level, P.occupied b src → P.occupied b sink →
    P.occupied (P.conf_connect_port b src sink level) = P.occupied b ∧
      (∀ m n, P.connected (P.conf_connect_port b src sink level) m n ↔ P.connected b m n ∨ m = src ∧ n = sink) ∧
      P.rx_level (P.conf_connect_port b src sink level) = P.rx_level b
  remove : ∀ b slot, P.occupied b slot →
    (∀ n, P.occupied (P.conf_remove_port b slot) n ↔ P.occupied b n ∧ n ≠ slot) ∧
      (∀ m n, P.connected (P.conf_remove_port b slot) m n ↔ P.connected b m n ∧ m ≠ slot ∧ n ≠ slot) ∧
      ∀ n, n ≠ slot → P.rx_level (P.conf_remove_port b slot) n = P.rx_level b n
  adjust : ∀ b slot level, P.occupied b slot →
    P.occupied (P.conf_adjust_rx_level b slot level) = P.occupied b ∧
      P.connected (P.conf_adjust_rx_level b slot level) = P.connected b ∧
      P.rx_level (P.conf_adjust_rx_level b slot level) = Function.update (P.rx_level b) slot level

/-- A port of the bridge that the map does not record: one that is joining and lacks the edges to `out` and
    from `back`, or one that is leaving. -/
structure Gap where
  slot : Nat
  joining : Bool
  out : Nat → Prop := fun _ => False
  back : Nat → Prop := fun _ => False

def Recorded (slots : Bytes → Option Nat) (n : Nat) : Prop := ∃ part_id, slots part_id = some n

/-- The slots of the participants and of the port in hand. -/
def Ports (slots : Bytes → Option Nat) (g : Option Gap) (n : Nat) : Prop :=
  Recorded slots n ∨ ∃ h, g = some h ∧ n = h.slot

/-- The edge is one that the port in hand does not have yet. -/
def Gap.Lacks (h : Gap) (m n : Nat) : Prop := (m = h.slot ∧ h.out n) ∨ (n = h.slot ∧ h.back m)

structure Mirrors {B : Type} (P : Pjmedia B) (b : B) (slots : Bytes → Option Nat) (x : Roster) (g : Option Gap) :
    Prop where
  distinct : ∀ i j n, slots i = some n → slots j = some n → i = j
  master : ¬Ports slots g MASTER_SLOT
  apart : ∀ h, g = some h → ¬Recorded slots h.slot
  occupied : ∀ n, P.occupied b n ↔ n = MASTER_SLOT ∨ Ports slots g n
  sound : ∀ m n, P.connected b m n → m ≠ n ∧ Ports slots g m ∧ Ports slots g n
  complete : ∀ m n, m ≠ n → Ports slots g m → Ports slots g n → (∀ h, g = some h → ¬h.Lacks m n) → P.connected b m n
  members : ∀ i, (slots i).isSome = (x i).isSome
  level : ∀ i n, slots i = some n → (P.Muted b n ↔ x i = some true)
  fresh : ∀ h, g = some h → h.joining = true → ¬P.Muted b h.slot

@[simp] theorem ports_none {slots : Bytes → Option Nat} {n : Nat} : Ports slots none n ↔ Recorded slots n := by
  simp [Ports]

@[simp] theorem ports_some {slots : Bytes → Option Nat} {h : Gap} {n : Nat} :
    Ports slots (some h) n ↔ Recorded slots n ∨ n = h.slot := by
  simp [Ports]

theorem ports_congr (slots : Bytes → Option Nat) {h h' : Gap} (hslot : h'.slot = h.slot) :
    Ports slots (some h') = Ports slots (some h) := by
  funext n
  simp [hslot]

namespace Mirrors
variable {B : Type} {P : Pjmedia B} {b b' : B} {slots : Bytes → Option Nat} {x : Roster} {g : Option Gap} {h : Gap}
  {i : Bytes} {n e : Nat}

theorem init (hb : P.Fresh b) : Mirrors P b (fun _ => none) (fun _ => none) none where
  distinct := nofun
  master := by simp [Recorded]
  apart := nofun
  occupied n := by simp [Recorded, hb.occupied]
  sound m n hmn := absurd hmn (hb.connected m n)
  complete m n _ hm := by simp [Recorded] at hm
  members _ := rfl
  level := nofun
  fresh := nofun

theorem absent (hm : Mirrors P b slots x g) (hi : slots i = none) : x i = none := by
  rw [← Option.isSome_eq_false_iff.trans Option.isNone_iff_eq_none, ← hm.members, hi]
  rfl

theorem present (hm : Mirrors P b slots x g) (hi : slots i = some n) : x i ≠ none := by
  rw [← Option.isSome_iff_ne_none, ← hm.members, hi]
  rfl

/-- The bridge may change in what cannot be seen of it. -/
theorem of_same (hm : Mirrors P b slots x g) (hocc : P.occupied b' = P.occupied b)
    (hcon : P.connected b' = P.connected b) (hlev : P.rx_level b' = P.rx_level b) : Mirrors P b' slots x g :=
  { hm with
    occupied := by rw [hocc]; exact hm.occupied
    sound := by rw [hcon]; exact hm.sound
    complete := by rw [hcon]; exact hm.complete
    level := by unfold Pjmedia.Muted; rw [hlev]; exact hm.level
    fresh := by unfold Pjmedia.Muted; rw [hlev]; exact hm.fresh }

/-! ### What each effect does -/

/-- The new port is silent, unmuted and without edges. -/
theorem addPort (hP : P.Lawful) (hm : Mirrors P b slots x none) (hadd : P.conf_add_port b = (b', some n)) :
    Mirrors P b' slots x (some { slot := n, joining := true, out := fun _ => True, back := fun _ => True }) := by
  obtain ⟨hfree, hmute, hocc, hcon, hlev⟩ := hP.add b b' n hadd
  have hnew : n ≠ MASTER_SLOT ∧ ¬Recorded slots n := by
    simpa [hm.occupied] using hfree
  constructor
  · exact hm.distinct
  · simpa [hnew.1.symm] using hm.master
  · rintro _ ⟨⟩
    exact hnew.2
  · intro k
    simp [hocc, hm.occupied, or_assoc]
  · intro k l hkl
    obtain ⟨hne, hk, hl⟩ := hm.sound k l ((hcon k l).mp hkl).1
    rw [ports_none] at hk hl
    simp [hne, hk, hl]
  · intro k l hne hk hl hlacks
    have hk' : k ≠ n := fun hkn => hlacks _ rfl (Or.inl ⟨hkn, trivial⟩)
    have hl' : l ≠ n := fun hln => hlacks _ rfl (Or.inr ⟨hln, trivial⟩)
    rw [ports_some] at hk hl
    exact (hcon k l).mpr ⟨hm.complete k l hne (by simpa [hk'] using hk) (by simpa [hl'] using hl) nofun, hk', hl'⟩
  · exact hm.members
  · intro i k hi
    have hk : k ≠ n := fun hkn => hnew.2 ⟨i, hkn ▸ hi⟩
    rw [← hm.level i k hi, Pjmedia.Muted, hlev k hk, Pjmedia.Muted]
  · rintro _ ⟨⟩ _
    exact hmute

/-- What is missing matters only between ports. -/
theorem narrow (hm : Mirrors P b slots x (some h)) {h' : Gap} (hslot : h'.slot = h.slot)
    (hjoin : h'.joining = h.joining)
    (hlacks : ∀ k l, k ≠ l → Ports slots (some h) k → Ports slots (some h) l → h.Lacks k l → h'.Lacks k l) :
    Mirrors P b slots x (some h') := by
  have hports := ports_congr slots hslot
  constructor
  · exact hm.distinct
  · rw [hports]
    exact hm.master
  · rintro _ ⟨⟩
    rw [hslot]
    exact hm.apart h rfl
  · rw [hports]
    exact hm.occupied
  · rw [hports]
    exact hm.sound
  · intro k l hne hk hl hlacks'
    rw [hports] at hk hl
    refine hm.complete k l hne hk hl ?_
    rintro _ ⟨⟩ hkl
    exact hlacks' h' rfl (hlacks k l hne hk hl hkl)
  · exact hm.members
  · exact hm.level
  · rintro _ ⟨⟩ hj
    rw [hslot]
    exact hm.fresh h rfl (hjoin ▸ hj)

/-- An edge between two ports takes nothing but itself from what is missing. -/
theorem connect (hP : P.Lawful) (hm : Mirrors P b slots x (some h)) {src sink : Nat} {level : Int} {h' : Gap}
    (hslot : h'.slot = h.slot) (hjoin : h'.joining = h.joining) (hne : src ≠ sink)
    (hsrc : Ports slots (some h) src) (hsink : Ports slots (some h) sink)
    (hlacks : ∀ k l, h.Lacks k l → h'.Lacks k l ∨ k = src ∧ l = sink) :
    Mirrors P (P.conf_connect_port b src sink level) slots x (some h') := by
  obtain ⟨hocc, hcon, hlev⟩ := hP.connect b src sink level ((hm.occupied src).mpr (Or.inr hsrc))
    ((hm.occupied sink).mpr (Or.inr hsink))
  have hports := ports_congr slots hslot
  constructor
  · exact hm.distinct
  · rw [hports]
    exact hm.master
  · rintro _ ⟨⟩
    rw [hslot]
    exact hm.apart h rfl
  · rw [hocc, hports]
    exact hm.occupied
  · intro k l hkl
    rw [hports]
    rcases (hcon k l).mp hkl with hkl | ⟨rfl, rfl⟩
    · exact hm.sound k l hkl
    · exact ⟨hne, hsrc, hsink⟩
  · intro k l hkl hk hl hlacks'
    rw [hports] at hk hl
    rw [hcon]
    by_cases hedge : k = src ∧ l = sink
    · exact Or.inr hedge
    · refine Or.inl (hm.complete k l hkl hk hl ?_)
      rintro _ ⟨⟩ hkl'
      rcases hlacks k l hkl' with hkl' | hkl'
      · exact hlacks' h' rfl hkl'
      · exact hedge hkl'
  · exact hm.members
  · unfold Pjmedia.Muted
    rw [hlev]
    exact hm.level
  · rintro _ ⟨⟩ hj
    rw [Pjmedia.Muted, hlev, hslot]
    exact hm.fresh h rfl (hjoin ▸ hj)

theorem recorded_update_some {k : Nat} (hi : slots i = none) :
    Recorded (Function.update slots i (some n)) k ↔ Recorded slots k ∨ k = n := by
  constructor
  · rintro ⟨j, hj⟩
    by_cases hji : j = i
    · rw [hji, Function.update_self] at hj
      exact Or.inr (Option.some.inj hj).symm
    · rw [Function.update_of_ne hji] at hj
      exact Or.inl ⟨j, hj⟩
  · rintro (⟨j, hj⟩ | rfl)
    · refine ⟨j, ?_⟩
      rw [Function.update_of_ne, hj]
      rintro rfl
      rw [hi] at hj
      cases hj
    · exact ⟨i, Function.update_self ..⟩

/-- The port in hand is recorded once it lacks no edge. -/
theorem join (hm : Mirrors P b slots x (some h)) (hjoin : h.joining = true) (hi : slots i = none)
    (hlacks : ∀ k l, ¬h.Lacks k l) :
    Mirrors P b (Function.update slots i (some h.slot)) (x.put (.joined i)) none := by
  have hports : ∀ k, Ports (Function.update slots i (some h.slot)) none k ↔ Ports slots (some h) k := fun k => by
    rw [ports_none, ports_some, recorded_update_some hi]
  have hapart := hm.apart h rfl
  constructor
  · intro j k m hj hk
    by_cases hji : j = i <;> by_cases hki : k = i
    · rw [hji, hki]
    · rw [hji, Function.update_self] at hj
      rw [Function.update_of_ne hki] at hk
      exact absurd ⟨k, hj ▸ hk⟩ hapart
    · rw [hki, Function.update_self] at hk
      rw [Function.update_of_ne hji] at hj
      exact absurd ⟨j, hk ▸ hj⟩ hapart
    · rw [Function.update_of_ne hji] at hj
      rw [Function.update_of_ne hki] at hk
      exact hm.distinct j k m hj hk
  · rw [hports]
    exact hm.master
  · exact nofun
  · intro k
    rw [hports]
    exact hm.occupied k
  · intro k l hkl
    rw [hports, hports]
    exact hm.sound k l hkl
  · intro k l hkl hk hl _
    refine hm.complete k l hkl ((hports k).mp hk) ((hports l).mp hl) ?_
    rintro _ ⟨⟩
    exact hlacks k l
  · intro j
    by_cases hji : j = i
    · simp [hji]
    · simp [Function.update_of_ne hji, hm.members]
  · intro j k hj
    by_cases hji : j = i
    · rw [hji, Function.update_self] at hj
      cases hj
      simp [hji, hm.fresh h rfl hjoin]
    · rw [Function.update_of_ne hji] at hj
      rw [hm.level j k hj, Roster.put_joined, Function.update_of_ne hji]
  · exact nofun

/-- A participant that leaves the map leaves its port in hand. -/
theorem leave (hm : Mirrors P b slots x none) (hi : slots i = some n) :
    Mirrors P b (Function.update slots i none) (x.put (.left i)) (some { slot := n, joining := false }) := by
  have hother : ∀ j k, Function.update slots i none j = some k → j ≠ i ∧ slots j = some k := by
    intro j k hj
    by_cases hji : j = i
    · rw [hji, Function.update_self] at hj
      cases hj
    · rw [Function.update_of_ne hji] at hj
      exact ⟨hji, hj⟩
  have hports : ∀ k, Ports (Function.update slots i none) (some { slot := n, joining := false }) k ↔
      Ports slots none k := by
    intro k
    rw [ports_none, ports_some]
    constructor
    · rintro (⟨j, hj⟩ | rfl)
      · exact ⟨j, (hother j k hj).2⟩
      · exact ⟨i, hi⟩
    · rintro ⟨j, hj⟩
      by_cases hji : j = i
      · rw [hji, hi] at hj
        exact Or.inr (Option.some.inj hj).symm
      · exact Or.inl ⟨j, by rw [Function.update_of_ne hji, hj]⟩
  constructor
  · intro j k m hj hk
    exact hm.distinct j k m (hother j m hj).2 (hother k m hk).2
  · rw [hports]
    exact hm.master
  · rintro _ ⟨⟩ ⟨j, hj⟩
    exact (hother j n hj).1 (hm.distinct j i n (hother j n hj).2 hi)
  · intro k
    rw [hports]
    exact hm.occupied k
  · intro k l hkl
    rw [hports, hports]
    exact hm.sound k l hkl
  · intro k l hkl hk hl _
    exact hm.complete k l hkl ((hports k).mp hk) ((hports l).mp hl) nofun
  · intro j
    by_cases hji : j = i
    · simp [hji]
    · simp [Function.update_of_ne hji, hm.members]
  · intro j k hj
    obtain ⟨hji, hj⟩ := hother j k hj
    rw [hm.level j k hj, Roster.put_left, Function.update_of_ne hji]
  · rintro _ ⟨⟩ ⟨⟩

theorem removePort (hP : P.Lawful) (hm : Mirrors P b slots x (some h)) (hleft : ∀ k l, ¬h.Lacks k l) :
    Mirrors P (P.conf_remove_port b h.slot) slots x none := by
  obtain ⟨hocc, hcon, hlev⟩ := hP.remove b h.slot ((hm.occupied h.slot).mpr (Or.inr (by simp)))
  have hapart := hm.apart h rfl
  have hmaster := hm.master
  rw [ports_some, not_or] at hmaster
  constructor
  · exact hm.distinct
  · simpa using hmaster.1
  · exact nofun
  · intro k
    rw [hocc, hm.occupied, ports_some, ports_none]
    constructor
    · rintro ⟨hk, hne⟩
      exact hk.imp_right fun hk => hk.resolve_right hne
    · rintro (rfl | hk)
      · exact ⟨Or.inl rfl, hmaster.2⟩
      · exact ⟨Or.inr (Or.inl hk), fun hkh => hapart (hkh ▸ hk)⟩
  · intro k l hkl
    obtain ⟨hkl, hk', hl'⟩ := (hcon k l).mp hkl
    obtain ⟨hne, hk, hl⟩ := hm.sound k l hkl
    rw [ports_none, ports_none]
    exact ⟨hne, (ports_some.mp hk).resolve_right hk', (ports_some.mp hl).resolve_right hl'⟩
  · intro k l hne hk hl _
    rw [ports_none] at hk hl
    refine (hcon k l).mpr ⟨hm.complete k l hne (ports_some.mpr (Or.inl hk)) (ports_some.mpr (Or.inl hl)) ?_,
      fun hkh => hapart (hkh ▸ hk), fun hlh => hapart (hlh ▸ hl)⟩
    rintro _ ⟨⟩
    exact hleft k l
  · exact hm.members
  · intro i k hi
    have hk : k ≠ h.slot := fun hkh => hapart ⟨i, hkh ▸ hi⟩
    rw [← hm.level i k hi, Pjmedia.Muted, hlev k hk, Pjmedia.Muted]
  · exact nofun

theorem adjust (hP : P.Lawful) (hm : Mirrors P b slots x none) (hi : slots i = some n) (mute : Bool) :
    Mirrors P (P.conf_adjust_rx_level b n (if mute then -128 else 0)) slots (x.put (.muted i mute)) none := by
  obtain ⟨hocc, hcon, hlev⟩ := hP.adjust b n (if mute then -128 else 0)
    ((hm.occupied n).mpr (Or.inr (ports_none.mpr ⟨i, hi⟩)))
  constructor
  · exact hm.distinct
  · exact hm.master
  · exact nofun
  · rw [hocc]
    exact hm.occupied
  · rw [hcon]
    exact hm.sound
  · rw [hcon]
    exact hm.complete
  · intro j
    by_cases hji : j = i
    · simp [hji, hi]
    · simp [Function.update_of_ne hji, hm.members]
  · intro j k hj
    by_cases hji : j = i
    · subst hji
      rw [hi] at hj
      cases hj
      rw [Pjmedia.Muted, hlev, Function.update_self, Roster.put_muted, Function.update_self]
      cases mute <;> simp
    · have hk : k ≠ n := fun hkn => hji (hm.distinct j i n (hkn ▸ hj) hi)
      rw [Pjmedia.Muted, hlev, Function.update_of_ne hk, Roster.put_muted, Function.update_of_ne hji]
      exact hm.level j k hj
  · exact nofun

end Mirrors
end AudioMeet.Live
