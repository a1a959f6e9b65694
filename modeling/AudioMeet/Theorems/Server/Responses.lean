import AudioMeet.Lib.Lists
import AudioMeet.Process
import AudioMeet.Theorems.Json

/-! What the text of a response tells. -/

namespace AudioMeet.Server
open Lib

theorem body_eq (code : Int) (msg : String) (data : Json) :
    body code msg data =
      .object [(ascii "code", .number code), (ascii "data", data), (ascii "msg", .string (ascii msg))] := by
  have h1 : ¬ ascii "msg" < ascii "code" := by decide
  have h2 : ascii "msg" ≠ ascii "code" := by decide
  have h3 : ¬ ascii "data" < ascii "code" := by decide
  have h4 : ascii "data" ≠ ascii "code" := by decide
  have h5 : ascii "data" < ascii "msg" := by decide
  simp only [body, Json.ofMembers, List.foldl_cons, List.foldl_nil, Json.insert, if_neg h1, if_neg h2, if_neg h3,
    if_neg h4, if_pos h5]

/-- A body starts with its code. -/
theorem dump_body {code : Int} {msg : String} {data : Json} {text : Bytes} (h : (body code msg data).dump = .ok text) :
    ∃ rest, text = ascii "\x7b\"code\":" ++ (ascii (toString code) ++ rest) := by
  have hname : Json.dumpEscaped (ascii "code") = .ok (ascii "code") := rfl
  rw [body_eq, Json.dump, Json.dumpMembers, hname, Json.dump] at h
  cases hrest : Json.dumpMembers [(ascii "data", data), (ascii "msg", .string (ascii msg))] with
  | error e =>
    rw [hrest] at h
    cases h
  | ok rest =>
    rw [hrest] at h
    have htext := Except.ok.inj h
    refine ⟨ascii "," ++ rest ++ ascii "\x7d", htext.symm.trans ?_⟩
    simp only [List.append_assoc]
    rfl

theorem printable_body {code : Int} {msg : String} {data : Json} (hmsg : Utf8.Valid (ascii msg)) :
    Json.Printable (body code msg data) ↔ Json.Printable data := by
  rw [body, Json.printable_ofMembers ["code", "msg", "data"] rfl (by decide)]
  simp [Json.Printable, hmsg]

/-- `dump` makes a text of a body with printable data. -/
theorem exists_dump {code : Int} {msg : String} {data : Json} (hmsg : Utf8.Valid (ascii msg)) (hdata : Json.Printable data) :
    ∃ text, (body code msg data).dump = .ok text := by
  have hok : (body code msg data).dump.isOk = true := (Json.isOk_dump _).mpr ((printable_body hmsg).mpr hdata)
  cases hdump : (body code msg data).dump with
  | ok text => exact ⟨text, rfl⟩
  | error e =>
    rw [hdump] at hok
    cases hok

theorem valid_hexId (random : UInt64) : Utf8.Valid (hexId random) := by
  refine Utf8.valid_of_ascii fun b hb => ?_
  obtain ⟨k, -, rfl⟩ := List.mem_map.mp hb
  have hlt : random.toNat / 16 ^ (15 - k) % 16 < 16 := Nat.mod_lt _ (by decide)
  revert hlt
  generalize random.toNat / 16 ^ (15 - k) % 16 = n
  revert n
  decide

theorem printable_created (random : UInt64) : Json.Printable (.ofMembers [("meetId", .string (hexId random))]) := by
  rw [Json.printable_ofMembers ["meetId"] rfl (by decide)]
  simpa [Json.Printable] using valid_hexId random

/-- A response has the code of its body, unless the handler threw. -/
theorem code_respond {code k : Nat} {msg : String} {data : Json} (hcode : code < 10) (hmsg : Utf8.Valid (ascii msg)) :
    (respond (body code msg data)).code = some k ↔ k = code ∧ Json.Printable data := by
  have hprint : Json.Printable (body code msg data) ↔ _ := printable_body hmsg
  rw [← hprint, ← Json.isOk_dump]
  unfold respond
  cases hdump : (body code msg data).dump with
  | error e => simp [Response.code, Except.isOk, Except.toBool]
  | ok text =>
    obtain ⟨rest, rfl⟩ := dump_body hdump
    have hdigit : ∀ n : Nat, n < 10 → ascii (toString (n : Int)) = [UInt8.ofNat (0x30 + n)] := by decide
    have hvalue : ∀ n : Nat, n < 10 → (UInt8.ofNat (0x30 + n)).toNat - 0x30 = n := by decide
    rw [hdigit code hcode]
    have hread : (Response.content (ascii "\x7b\"code\":" ++ ([UInt8.ofNat (0x30 + code)] ++ rest))).code =
        some ((UInt8.ofNat (0x30 + code)).toNat - 0x30) := rfl
    rw [hread, hvalue code hcode]
    simp [Except.isOk, Except.toBool, eq_comm]

theorem code_respond_null {code k : Nat} {msg : String} (hcode : code < 10) (hmsg : Utf8.Valid (ascii msg)) :
    (respond (body code msg .null)).code = some k ↔ k = code :=
  (code_respond hcode hmsg).trans (and_iff_left trivial)

/-- The response to an add that succeeded, up to the number of its port. -/
theorem dump_success {ip text : Bytes} {port : Nat}
    (h : (body 0 "success" (.ofMembers [("ip", .string ip), ("port", .number port)])).dump = .ok text) :
    ∃ front, text = front ++ ascii ":" ++ (ascii (toString (port : Int)) ++ ascii "\x7d,\"msg\":\"success\"\x7d") := by
  have hdata : Json.ofMembers [("ip", .string ip), ("port", .number port)] =
      .object [(ascii "ip", .string ip), (ascii "port", .number port)] := by
    have h1 : ¬ ascii "port" < ascii "ip" := by decide
    have h2 : ascii "port" ≠ ascii "ip" := by decide
    simp only [Json.ofMembers, List.foldl_cons, List.foldl_nil, Json.insert, if_neg h1, if_neg h2]
  have hcode : Json.dumpEscaped (ascii "code") = .ok (ascii "code") := rfl
  have hdat : Json.dumpEscaped (ascii "data") = .ok (ascii "data") := rfl
  have hip : Json.dumpEscaped (ascii "ip") = .ok (ascii "ip") := rfl
  have hport : Json.dumpEscaped (ascii "port") = .ok (ascii "port") := rfl
  have hmsg : Json.dumpEscaped (ascii "msg") = .ok (ascii "msg") := rfl
  have hsuccess : Json.dumpEscaped (ascii "success") = .ok (ascii "success") := rfl
  cases hs : Json.dumpEscaped ip with
  | error e =>
    simp only [body_eq, hdata, Json.dump, Json.dumpMembers, hcode, hdat, hip, hs, bind, Except.bind] at h
    cases h
  | ok iptext =>
    simp only [body_eq, hdata, Json.dump, Json.dumpMembers, hcode, hdat, hip, hs, hport, hmsg, hsuccess, bind,
      Except.bind, Except.ok.injEq] at h
    refine ⟨ascii "\x7b\"code\":0,\"data\":\x7b\"ip\":\"" ++ iptext ++ ascii "\",\"port\"", h.symm.trans ?_⟩
    simp only [List.append_assoc]
    rfl

theorem port_success {s : Bytes} {port : Nat} {text : Bytes}
    (h : (body 0 "success" (.ofMembers [("ip", .string s), ("port", .number port)])).dump = .ok text) :
    (Response.content text).port = some port := by
  obtain ⟨front, rfl⟩ := dump_success h
  generalize hdigits : ascii (toString (port : Int)) = digits
  have hall : ∀ b ∈ digits.reverse, (0x30 ≤ b && b ≤ 0x39) = true := by
    intro b hb
    exact digits_repr port b (hdigits ▸ List.mem_reverse.mp hb)
  have hne : digits ≠ [] := by
    rw [← hdigits, ascii_repr]
    exact fun hnil => Nat.toDigits_ne_nil (List.map_eq_nil_iff.mp hnil)
  have hcolon : ascii ":" = [0x3A] := rfl
  have hrev : (front ++ ascii ":" ++ (digits ++ ascii "\x7d,\"msg\":\"success\"\x7d")).reverse =
      (ascii "\x7d,\"msg\":\"success\"\x7d").reverse ++ (digits.reverse ++ 0x3A :: front.reverse) := by
    rw [hcolon, List.reverse_append, List.reverse_append, List.reverse_append, List.reverse_singleton, List.append_assoc,
      List.singleton_append]
  have htake : (digits.reverse ++ 0x3A :: front.reverse).takeWhile (fun b => 0x30 ≤ b && b ≤ 0x39) = digits.reverse := by
    rw [List.takeWhile_append_of_pos hall, List.takeWhile_cons_of_neg (by decide), List.append_nil]
  have hvalue : digits.foldl (fun n b => 10 * n + (b.toNat - 0x30)) 0 = port := hdigits ▸ read_repr port
  simp only [Response.port, hrev, List.dropPrefix?_append_of_beq _ BEq.rfl, Option.bind_eq_bind, Option.bind_some, htake, List.reverse_reverse,
    hvalue]
  simp [hne]

end AudioMeet.Server
