import Konf.Foundations.Cidr
import Konf.Substrate.Error

/-! # The URL filter of the HTTP tools

Model of `validate_url` (`konf-tool-http/src/lib.rs`). What the `url` crate makes of a text is a
parameter; the addresses are those of the standard library. -/

namespace Konf.Http
open Konf.Substrate Konf.Cidr
set_option autoImplicit false

/-! ## Addresses -/

abbrev Ipv4Addr := BitVec 32

abbrev Ipv6Addr := BitVec 128

namespace Ipv4Addr

def octet (ip : Ipv4Addr) (i : ℕ) : ℕ := ip.toNat / 256 ^ (3 - i) % 256

def isLoopback (ip : Ipv4Addr) : Bool := octet ip 0 == 127

def isPrivate (ip : Ipv4Addr) : Bool :=
  octet ip 0 == 10 ||
    (octet ip 0 == 172 && decide (16 ≤ octet ip 1) && decide (octet ip 1 ≤ 31)) ||
    (octet ip 0 == 192 && octet ip 1 == 168)

def isLinkLocal (ip : Ipv4Addr) : Bool := octet ip 0 == 169 && octet ip 1 == 254

def isUnspecified (ip : Ipv4Addr) : Bool := ip == 0

def display (ip : Ipv4Addr) : String :=
  ".".intercalate ((List.range 4).map fun i => toString (octet ip i))

end Ipv4Addr

namespace Ipv6Addr

def segment (ip : Ipv6Addr) (i : ℕ) : ℕ := ip.toNat / 65536 ^ (7 - i) % 65536

def segments (ip : Ipv6Addr) : List ℕ := (List.range 8).map (segment ip)

def isLoopback (ip : Ipv6Addr) : Bool := ip == 1

def toIpv4Mapped (ip : Ipv6Addr) : Option Ipv4Addr :=
  if ip.extractLsb' 32 96 = 0xffff then some (ip.extractLsb' 0 32) else none

/-- The first of the longest runs of zeros, as its start and length: `i` is the next position, `current`
the run that ends before it. -/
def zeroSpan : List ℕ → ℕ → ℕ × ℕ → ℕ × ℕ → ℕ × ℕ
  | [], _, _, longest => longest
  | s :: rest, i, current, longest =>
    if s = 0 then
      let current := (if current.2 = 0 then i else current.1, current.2 + 1)
      zeroSpan rest (i + 1) current (if longest.2 < current.2 then current else longest)
    else zeroSpan rest (i + 1) (0, 0) longest

def hexSegments (chunk : List ℕ) : String :=
  ":".intercalate (chunk.map fun s => String.ofList (Nat.toDigits 16 s))

def display (ip : Ipv6Addr) : String :=
  match toIpv4Mapped ip with
  | some ip => "::ffff:" ++ ip.display
  | none =>
    let zeroes := zeroSpan (segments ip) 0 (0, 0) (0, 0)
    if 1 < zeroes.2 then
      hexSegments ((segments ip).take zeroes.1) ++ "::" ++
        hexSegments ((segments ip).drop (zeroes.1 + zeroes.2))
    else hexSegments (segments ip)

end Ipv6Addr

inductive Host
  | domain (domain : String)
  | ipv4 (ip : Ipv4Addr)
  | ipv6 (ip : Ipv6Addr)
deriving DecidableEq

structure ParsedUrl where
  scheme : String
  host : Option Host

/-! ## The filter -/

def invalidUrl (message : String) : Except ToolError Unit :=
  .error (.invalidInput message (some "url"))

def validateHost : Host → Except ToolError Unit
  | .domain domain =>
    if domain ∈ ["localhost", "metadata.google.internal"] then
      invalidUrl ("URL host '" ++ domain ++ "' is blocked")
    else .ok ()
  | .ipv4 ip =>
    if ip.isLoopback || ip.isPrivate || ip.isLinkLocal || ip.isUnspecified then
      invalidUrl ("URL host '" ++ ip.display ++ "' is a private/internal IP")
    else .ok ()
  | .ipv6 ip =>
    if ip.isLoopback || ip.segment 0 == 0xfe80 then
      invalidUrl ("URL host '" ++ ip.display ++ "' is a private/internal IP")
    else .ok ()

def validateUrl (parse : String → Except String ParsedUrl) (url : String) : Except ToolError Unit :=
  match parse url with
  | .error e => invalidUrl ("Invalid URL: " ++ e)
  | .ok parsed =>
    if parsed.scheme = "http" ∨ parsed.scheme = "https" then
      match parsed.host with
      | some host => validateHost host
      | none => .ok ()
    else invalidUrl ("Unsupported URL scheme: " ++ parsed.scheme)

/-! ## Internal addresses -/

inductive IpAddr
  | v4 (ip : Ipv4Addr)
  | v6 (ip : Ipv6Addr)

namespace IpAddr

def host : IpAddr → Host
  | .v4 ip => .ipv4 ip
  | .v6 ip => .ipv6 ip

/-- The address that a connection uses: an IPv4 address inside an IPv6 one counts as itself. -/
def canonical : IpAddr → IpAddr
  | .v4 ip => .v4 ip
  | .v6 ip => match ip.toIpv4Mapped with
    | some inner => .v4 inner
    | none => .v6 ip

end IpAddr

/-- 127.0.0.0/8, 10.0.0.0/8, 172.16.0.0/12, 192.168.0.0/16, 169.254.0.0/16 and 0.0.0.0/32. -/
def internalV4 : List (Block 32) :=
  [⟨0x7f000000, 8, by decide, by decide⟩, ⟨0x0a000000, 8, by decide, by decide⟩,
    ⟨0xac100000, 12, by decide, by decide⟩, ⟨0xc0a80000, 16, by decide, by decide⟩,
    ⟨0xa9fe0000, 16, by decide, by decide⟩, ⟨0, 32, by decide, by decide⟩]

/-- ::1/128 -/
def loopbackV6 : Block 128 := ⟨1, 128, by decide, by decide⟩

/-- ::/128 -/
def unspecifiedV6 : Block 128 := ⟨0, 128, by decide, by decide⟩

/-- fc00::/7 -/
def uniqueLocal : Block 128 := ⟨0xfc000000000000000000000000000000, 7, by decide, by decide⟩

/-- fe80::/10 -/
def linkLocalV6 : Block 128 := ⟨0xfe800000000000000000000000000000, 10, by decide, by decide⟩

/-- fe80::/16 -/
def linkLocalHead : Block 128 := ⟨0xfe800000000000000000000000000000, 16, by decide, by decide⟩

def internalV6 : List (Block 128) := [loopbackV6, unspecifiedV6, uniqueLocal, linkLocalV6]

/-- Loopback, private, link-local, unspecified or unique-local. -/
def Internal (ip : IpAddr) : Prop :=
  match ip.canonical with
  | .v4 ip => Covered internalV4 ip
  | .v6 ip => Covered internalV6 ip

/-- No URL whose host is an internal address passes. -/
def FiltersInternal (parse : String → Except String ParsedUrl) (url : String) : Prop :=
  ∀ parsed ip, parse url = .ok parsed → parsed.host = some (IpAddr.host ip) →
    validateUrl parse url = .ok () → ¬ Internal ip

/-- The internal IPv6 addresses that the filter has no check for. -/
def Missed (ip : Ipv6Addr) : Prop :=
  ip ∈ unspecifiedV6 ∨ ip ∈ uniqueLocal ∨ (ip ∈ linkLocalV6 ∧ ip ∉ linkLocalHead) ∨
    Covered (internalV4.map (Block.behind (0xffff : BitVec 96))) ip

/-! ## The checks as blocks -/

theorem octet_zero (ip : Ipv4Addr) : ip.octet 0 = ip.toNat / 16777216 := by
  have hlt := ip.isLt
  exact Nat.mod_eq_of_lt (by omega)

theorem segment_zero (ip : Ipv6Addr) : ip.segment 0 = ip.toNat / 65536 ^ 7 := by
  have hlt := ip.isLt
  exact Nat.mod_eq_of_lt (by omega)

theorem blocked_v4_iff (ip : Ipv4Addr) :
    (ip.isLoopback || ip.isPrivate || ip.isLinkLocal || ip.isUnspecified) = true ↔
      Covered internalV4 ip := by
  have hlt := ip.isLt
  have hzero : ip = 0 ↔ ip.toNat = 0 := by rw [← BitVec.toNat_inj]; rfl
  simp only [Ipv4Addr.isLoopback, Ipv4Addr.isPrivate, Ipv4Addr.isLinkLocal, Ipv4Addr.isUnspecified,
    Bool.or_eq_true, Bool.and_eq_true, beq_iff_eq, decide_eq_true_eq, hzero, octet_zero]
  simp only [Ipv4Addr.octet, internalV4, covered_cons, covered_nil, mem_iff_range,
    BitVec.reduceToNat, Nat.reduceSub, Nat.reducePow, Nat.reduceAdd,
    or_false]
  omega

theorem blocked_v6_iff (ip : Ipv6Addr) :
    (ip.isLoopback || ip.segment 0 == 0xfe80) = true ↔ ip ∈ loopbackV6 ∨ ip ∈ linkLocalHead := by
  have hlt := ip.isLt
  have hone : ip = 1 ↔ ip.toNat = 1 := by rw [← BitVec.toNat_inj]; rfl
  simp only [Ipv6Addr.isLoopback, segment_zero, Bool.or_eq_true, beq_iff_eq, loopbackV6,
    linkLocalHead, mem_iff_range, BitVec.reduceToNat, Nat.reduceSub, Nat.reducePow, Nat.reduceAdd,
    hone]
  omega

/-- An IPv6 address is its first 96 bits and the IPv4 address after them. -/
theorem append_low (ip : Ipv6Addr) :
    (ip.extractLsb' 32 96 ++ ip.extractLsb' 0 32 : BitVec (96 + 32)) = ip := by
  have hlt := ip.isLt
  apply BitVec.eq_of_toNat_eq
  rw [toNat_append_eq]
  simp only [BitVec.extractLsb'_toNat, Nat.shiftRight_eq_div_pow]
  omega

theorem mem_map_behind {ip : Ipv6Addr} {b : Block 32} :
    ip ∈ b.behind (0xffff : BitVec 96) ↔ ∃ inner, ip.toIpv4Mapped = some inner ∧ inner ∈ b := by
  conv_lhs => rw [← append_low ip]
  rw [append_mem_behind]
  unfold Ipv6Addr.toIpv4Mapped
  split_ifs with h
  · simp only [h, true_and, Option.some.injEq, exists_eq_left']
  · simp only [h, false_and, exists_false]

theorem covered_map_behind {ip : Ipv6Addr} (bs : List (Block 32)) :
    Covered (bs.map (Block.behind (0xffff : BitVec 96))) ip ↔
      ∃ inner, ip.toIpv4Mapped = some inner ∧ Covered bs inner := by
  induction bs with
  | nil => simp
  | cons b bs ih =>
    rw [List.map_cons, covered_cons, ih, mem_map_behind]
    simp only [covered_cons]
    constructor
    · rintro (⟨inner, hip, hb⟩ | ⟨inner, hip, hbs⟩)
      · exact ⟨inner, hip, .inl hb⟩
      · exact ⟨inner, hip, .inr hbs⟩
    · rintro ⟨inner, hip, hb | hbs⟩
      · exact .inl ⟨inner, hip, hb⟩
      · exact .inr ⟨inner, hip, hbs⟩

theorem linkLocalHead_subset {ip : Ipv6Addr} (h : ip ∈ linkLocalHead) : ip ∈ linkLocalV6 :=
  mem_of_base_mem (by decide) (by decide) h

theorem internal_v6_of_mapped {ip : Ipv6Addr} {inner : Ipv4Addr} (h : ip.toIpv4Mapped = some inner) :
    Internal (.v6 ip) ↔ Covered internalV4 inner := by
  have hcanonical : (IpAddr.v6 ip).canonical = .v4 inner := by simp [IpAddr.canonical, h]
  simp only [Internal, hcanonical]

theorem internal_v6_of_not_mapped {ip : Ipv6Addr} (h : ip.toIpv4Mapped = none) :
    Internal (.v6 ip) ↔ Covered internalV6 ip := by
  have hcanonical : (IpAddr.v6 ip).canonical = .v6 ip := by simp [IpAddr.canonical, h]
  simp only [Internal, hcanonical]

/-- No mapped address is in an internal IPv6 block. -/
theorem not_covered_of_mapped {ip : Ipv6Addr} {inner : Ipv4Addr} (h : ip.toIpv4Mapped = some inner) :
    ¬ Covered internalV6 ip := by
  have hhigh : ip.toNat / 2 ^ 32 % 2 ^ 96 = 0xffff := by
    unfold Ipv6Addr.toIpv4Mapped at h
    split_ifs at h with hhigh
    simpa [Nat.shiftRight_eq_div_pow] using congrArg BitVec.toNat hhigh
  have hlt := ip.isLt
  simp only [internalV6, loopbackV6, unspecifiedV6, uniqueLocal, linkLocalV6, covered_cons,
    covered_nil, mem_iff_range, BitVec.reduceToNat, Nat.reduceSub, Nat.reducePow, Nat.reduceAdd,
    or_false]
  omega

/-- The addresses without a check are not in the blocks that are checked. -/
theorem not_checked_of_missed {ip : Ipv6Addr} (h : Missed ip) :
    ¬ (ip ∈ loopbackV6 ∨ ip ∈ linkLocalHead) := by
  obtain hunspecified | hlocal | ⟨hlink, hhead⟩ | hmapped := h
  · simp only [unspecifiedV6, loopbackV6, linkLocalHead, mem_iff_range, BitVec.reduceToNat,
      Nat.reduceSub, Nat.reducePow, Nat.reduceAdd] at hunspecified ⊢
    omega
  · simp only [uniqueLocal, loopbackV6, linkLocalHead, mem_iff_range, BitVec.reduceToNat,
      Nat.reduceSub, Nat.reducePow, Nat.reduceAdd] at hlocal ⊢
    omega
  · rintro (hloopback | hin)
    · simp only [linkLocalV6, loopbackV6, mem_iff_range, BitVec.reduceToNat, Nat.reduceSub,
        Nat.reducePow, Nat.reduceAdd] at hlink hloopback
      omega
    · exact hhead hin
  · obtain ⟨inner, hinner, -⟩ := (covered_map_behind _).mp hmapped
    have hnot := not_covered_of_mapped hinner
    rintro (hloopback | hin)
    · exact hnot (by simp [internalV6, hloopback])
    · exact hnot (by simp [internalV6, linkLocalHead_subset hin])

/-- What the two checks of an IPv6 host leave out. -/
theorem internal_v6_iff (ip : Ipv6Addr) :
    Internal (.v6 ip) ↔ (ip ∈ loopbackV6 ∨ ip ∈ linkLocalHead) ∨ Missed ip := by
  unfold Missed
  rw [covered_map_behind]
  cases hmapped : ip.toIpv4Mapped with
  | none =>
    rw [internal_v6_of_not_mapped hmapped]
    simp only [internalV6, covered_cons, covered_nil, reduceCtorEq, false_and, exists_false]
    have hsub : ip ∈ linkLocalHead → ip ∈ linkLocalV6 := linkLocalHead_subset
    by_cases hhead : ip ∈ linkLocalHead
    · simp [hhead, hsub hhead]
    · simp [hhead]
  | some inner =>
    have hnot := not_covered_of_mapped hmapped
    have hhead : ip ∉ linkLocalHead := fun hhead => hnot (by simp [internalV6, linkLocalHead_subset hhead])
    simp only [internalV6, covered_cons, covered_nil, not_or] at hnot
    rw [internal_v6_of_mapped hmapped]
    simp [hnot.1, hnot.2.1, hnot.2.2.1, hnot.2.2.2.1, hhead]

/-! ## The result -/

/-- The URL's host is an internal address that no check covers, and its scheme is let through. -/
def ReachesMissed (parse : String → Except String ParsedUrl) (url : String) : Prop :=
  ∃ parsed ip, parse url = .ok parsed ∧ (parsed.scheme = "http" ∨ parsed.scheme = "https") ∧
    parsed.host = some (.ipv6 ip) ∧ Missed ip

theorem validateHost_v4 (ip : Ipv4Addr) :
    validateHost (.ipv4 ip) = .ok () ↔ ¬ Internal (.v4 ip) := by
  have hinternal : Internal (.v4 ip) ↔ Covered internalV4 ip := Iff.rfl
  rw [hinternal, ← blocked_v4_iff]
  simp only [validateHost]
  split_ifs with h <;> simp [h, invalidUrl]

theorem validateHost_v6 (ip : Ipv6Addr) :
    validateHost (.ipv6 ip) = .ok () ↔ ¬ (ip ∈ loopbackV6 ∨ ip ∈ linkLocalHead) := by
  simp only [validateHost]
  rw [← blocked_v6_iff]
  split_ifs with h <;> simp [h, invalidUrl]

theorem validateUrl_ok {parse : String → Except String ParsedUrl} {url : String}
    {parsed : ParsedUrl} {host : Host} (hparse : parse url = .ok parsed)
    (hhost : parsed.host = some host) : validateUrl parse url = .ok () ↔
      (parsed.scheme = "http" ∨ parsed.scheme = "https") ∧ validateHost host = .ok () := by
  unfold validateUrl
  simp only [hparse, hhost]
  split_ifs with h <;> simp [h, invalidUrl]

theorem not_filters_of_reachesMissed {parse : String → Except String ParsedUrl} {url : String}
    (h : ReachesMissed parse url) : ¬ FiltersInternal parse url := by
  obtain ⟨parsed, ip, hparse, hscheme, hhost, hmissed⟩ := h
  intro hfilters
  have hinternal : Internal (.v6 ip) := (internal_v6_iff ip).mpr (.inr hmissed)
  have hvalid := (validateHost_v6 ip).mpr (not_checked_of_missed hmissed)
  have hok := (validateUrl_ok hparse hhost).mpr ⟨hscheme, hvalid⟩
  exact hfilters parsed (.v6 ip) hparse hhost hok hinternal

/-- The filter keeps every internal address out unless the host is an IPv6 address of a block that it
does not check. -/
theorem filters_internal_iff (parse : String → Except String ParsedUrl) (url : String) :
    FiltersInternal parse url ↔ ¬ ReachesMissed parse url := by
  constructor
  · intro hfilters hmissed
    exact not_filters_of_reachesMissed hmissed hfilters
  · intro hmissed parsed ip hparse hhost hok hinternal
    obtain ⟨hscheme, hvalid⟩ := (validateUrl_ok hparse hhost).mp hok
    cases ip with
    | v4 ip => exact (validateHost_v4 ip).mp hvalid hinternal
    | v6 ip =>
      obtain hchecked | hmiss := (internal_v6_iff ip).mp hinternal
      · exact (validateHost_v6 ip).mp hvalid hchecked
      · exact hmissed ⟨parsed, ip, hparse, hscheme, hhost, hmiss⟩

/-- A URL parser for four internal addresses. -/
def parseSample (url : String) : Except String ParsedUrl :=
  match url with
  | "http://[::]/" => .ok ⟨"http", some (.ipv6 0)⟩
  | "http://[fd00::1]/" => .ok ⟨"http", some (.ipv6 0xfd000000000000000000000000000001)⟩
  | "http://[fe81::1]/" => .ok ⟨"http", some (.ipv6 0xfe810000000000000000000000000001)⟩
  | "http://[::ffff:127.0.0.1]/" => .ok ⟨"http", some (.ipv6 0xffff7f000001)⟩
  | _ => .error "invalid international domain name"

instance (ip : Ipv6Addr) : Decidable (Missed ip) := by
  unfold Missed
  infer_instance

theorem reachesMissed_of_parse {parse : String → Except String ParsedUrl} {url : String}
    (ip : Ipv6Addr) (h : parse url = .ok ⟨"http", some (.ipv6 ip)⟩) (hmissed : Missed ip) :
    ReachesMissed parse url := ⟨_, ip, h, .inl rfl, rfl, hmissed⟩

/-- The unspecified address, a unique-local one, a link-local one past fe80::/16 and a mapped loopback
address pass. -/
theorem internal_v6_passes :
    ¬ FiltersInternal parseSample "http://[::]/" ∧
      ¬ FiltersInternal parseSample "http://[fd00::1]/" ∧
      ¬ FiltersInternal parseSample "http://[fe81::1]/" ∧
      ¬ FiltersInternal parseSample "http://[::ffff:127.0.0.1]/" := by
  refine ⟨?_, ?_, ?_, ?_⟩ <;> apply not_filters_of_reachesMissed
  · exact reachesMissed_of_parse 0 (by simp [parseSample]) (by decide +kernel)
  · exact reachesMissed_of_parse 0xfd000000000000000000000000000001 (by simp [parseSample])
      (by decide +kernel)
  · exact reachesMissed_of_parse 0xfe810000000000000000000000000001 (by simp [parseSample])
      (by decide +kernel)
  · exact reachesMissed_of_parse 0xffff7f000001 (by simp [parseSample]) (by decide +kernel)

end Konf.Http
