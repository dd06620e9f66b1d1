import RangePorter.Net.Parse

/-!
# Reading back the standard text

The standard text of a socket address spells it, whichever run of zero groups is left out
and whether or not the IPv6 address is mapped from IPv4. Flow information has no text.
-/

namespace RangePorter

open Text

namespace IpAddr

variable {segments groups chunk : List Nat} {spans : Span × Span} {k index : Nat} {s : Str}

/-! ### Digits -/

/-- The bits from `j` on, and then the bits below `j`, are those from `k` on. -/
theorem div_pow_add_mod (n : Nat) {j k w : Nat} (above : j = k + w) :
    n / 2 ^ j * 2 ^ w + n / 2 ^ k % 2 ^ w = n / 2 ^ k := by
  rw [above, Nat.pow_add, ← Nat.div_div_eq_div_mul]
  exact Nat.div_add_mod' ..

theorem fromDigits_octets (ip : BitVec 32) : fromDigits 256 (octets ip) = ip.toNat := by
  have bound := ip.isLt
  simp only [fromDigits, octets, List.map_cons, List.map_nil, List.foldl_cons, List.foldl_nil]
  omega

theorem fromOctets_octets (ip : BitVec 32) : fromOctets (octets ip) = ip := by
  rw [fromOctets, fromDigits_octets, BitVec.ofNat_toNat, BitVec.setWidth_eq]

theorem fromDigits_segments (ip : BitVec 128) :
    fromDigits 65536 (IpAddr.segments ip) = ip.toNat := by
  have bound := ip.isLt
  have top : ip.toNat / 2 ^ 112 % 65536 = ip.toNat / 2 ^ 112 := Nat.mod_eq_of_lt (by omega)
  have join : ∀ j k, j = k + 16 →
      ip.toNat / 2 ^ j * 65536 + ip.toNat / 2 ^ k % 65536 = ip.toNat / 2 ^ k :=
    fun j k above => div_pow_add_mod ip.toNat above
  simp only [fromDigits, IpAddr.segments, List.map_cons, List.map_nil, List.foldl_cons,
    List.foldl_nil]
  rw [top, Nat.zero_mul, Nat.zero_add, join 112 96 rfl, join 96 80 rfl, join 80 64 rfl,
    join 64 48 rfl, join 48 32 rfl, join 32 16 rfl, join 16 0 rfl, Nat.pow_zero, Nat.div_one]

theorem fromSegments_segments (ip : BitVec 128) : fromSegments (IpAddr.segments ip) = ip := by
  rw [fromSegments, fromDigits_segments, BitVec.ofNat_toNat, BitVec.setWidth_eq]

theorem fromDigits_ipv4Groups (ip : BitVec 32) : fromDigits 65536 (ipv4Groups ip) = ip.toNat := by
  have bound := ip.isLt
  simp only [fromDigits, ipv4Groups, octets, List.map_cons, List.map_nil, List.foldl_cons,
    List.foldl_nil]
  omega

/-- Leading zeros do not count. -/
theorem fromDigits_zeros (base n : Nat) (digits : List Nat) :
    fromDigits base (List.replicate n 0 ++ digits) = fromDigits base digits := by
  induction n with
  | zero => rfl
  | succ n ih =>
      rw [← ih, fromDigits, fromDigits, List.replicate_succ, List.cons_append, List.foldl_cons,
        Nat.zero_mul]

/-! ### IPv4 addresses -/

theorem spellsIpv4_displayV4 (ip : BitVec 32) : SpellsIpv4 (displayV4 ip) ip := by
  refine ⟨octets ip, ⟨separated_intercalate ?_, rfl⟩, (fromOctets_octets ip).symm⟩
  intro octet member
  obtain ⟨shift, -, rfl⟩ := List.mem_map.mp member
  have bound : ip.toNat / 2 ^ shift % 256 < 256 := Nat.mod_lt _ (by decide)
  apply isNumber_toDigits (by decide) (by decide) _ bound
  rintro max ⟨⟩
  exact ⟨by decide, Nat.lt_trans bound (by decide)⟩

/-! ### Groups -/

theorem SpellsGroups.of_separated (separated : Separated ':' (IsNumber 16 (some 4) true 16) index
    s groups) : SpellsGroups index s groups false := by
  induction separated with
  | nil => exact .nil
  | cons first _ ih => exact .cons first ih

theorem isNumber_group {n : Nat} (bound : n < 65536) :
    IsNumber 16 (some 4) true 16 (Nat.toDigits 16 n) n := by
  apply isNumber_toDigits (by decide) (by decide) _ bound
  rintro max ⟨⟩
  exact ⟨by decide, bound⟩

theorem spellsGroups_fmtSubslice (bound : ∀ n ∈ chunk, n < 65536) :
    SpellsGroups 0 (fmtSubslice chunk) chunk false := by
  apply SpellsGroups.of_separated
  apply separated_intercalate
  exact fun n member => isNumber_group (bound n member)

/-! ### The longest run of zeros -/

/-- The span covers zeros only. -/
def IsZeros (segments : List Nat) (span : Span) : Prop :=
  ∀ i, span.start ≤ i → i < span.start + span.len → segments[i]? = some 0

theorem isZeros_empty (segments : List Nat) : IsZeros segments ⟨0, 0⟩ :=
  fun _ low high => absurd high (Nat.not_lt.mpr low)

/-- The current span grows by one zero, or starts with it. -/
theorem IsZeros.extend {span : Span} (zeros : IsZeros segments span)
    (current : span.len = 0 ∨ span.start + span.len = k) (zero : segments[k]? = some 0) :
    IsZeros segments ⟨if span.len = 0 then k else span.start, span.len + 1⟩ := by
  intro i low high
  simp only at low high
  split at low
  · rename_i empty
    rw [if_pos empty, empty] at high
    rw [show i = k by omega]
    exact zero
  · rename_i started
    rw [if_neg started] at high
    obtain before | last : i < k ∨ i = k := by omega
    · exact zeros i low (by omega)
    · rw [last]
      exact zero

theorem isZeros_findZeros {segment : Nat} (within : SpansWithin k spans)
    (longest : IsZeros segments spans.1) (current : IsZeros segments spans.2)
    (here : segments[k]? = some segment) :
    IsZeros segments (findZeros spans (segment, k)).1 ∧
      IsZeros segments (findZeros spans (segment, k)).2 := by
  by_cases zero : segment = 0
  · rw [zero] at here
    have extended := current.extend within.current here
    simp only [findZeros, zero, if_true]
    refine ⟨?_, extended⟩
    split
    · exact extended
    · exact longest
  · simp only [findZeros, zero, if_false]
    exact ⟨longest, isZeros_empty segments⟩

theorem isZeros_foldl (rest : List Nat) (left : segments.drop k = rest)
    (within : SpansWithin k spans) (longest : IsZeros segments spans.1)
    (current : IsZeros segments spans.2) :
    IsZeros segments ((rest.zipIdx k).foldl findZeros spans).1 := by
  induction rest generalizing k spans with
  | nil => exact longest
  | cons segment rest ih =>
      have here : segments[k]? = some segment := by
        rw [← List.head?_drop, left, List.head?_cons]
      have left' : segments.drop (k + 1) = rest := by
        rw [← List.tail_drop, left, List.tail_cons]
      obtain ⟨longest', current'⟩ := isZeros_findZeros within longest current here
      rw [List.zipIdx_cons, List.foldl_cons]
      exact ih left' (within.findZeros segment) longest' current'

theorem isZeros_longestZeros (segments : List Nat) : IsZeros segments (longestZeros segments) :=
  isZeros_foldl segments rfl ⟨Nat.le_refl 0, .inl rfl⟩ (isZeros_empty _) (isZeros_empty _)

/-- What is left out of the text is put back as zeros. -/
theorem fill_zeros {span : Span} (zeros : IsZeros segments span)
    (inside : span.start + span.len ≤ segments.length) :
    segments.take span.start ++ List.replicate span.len 0 ++
      segments.drop (span.start + span.len) = segments := by
  have middle : (segments.drop span.start).take span.len = List.replicate span.len 0 := by
    rw [List.eq_replicate_iff, List.length_take, List.length_drop]
    refine ⟨by omega, ?_⟩
    intro segment member
    obtain ⟨i, found⟩ := List.mem_iff_getElem?.mp member
    have short : i < span.len := by
      have below := (List.getElem?_eq_some_iff.mp found).1
      rw [List.length_take] at below
      omega
    rw [List.getElem?_take_of_lt short, List.getElem?_drop,
      zeros _ (Nat.le_add_right ..) (by omega)] at found
    exact (Option.some.inj found).symm
  rw [← middle, List.append_assoc, ← List.drop_drop, List.take_append_drop, List.take_append_drop]

/-! ### IPv6 addresses -/

theorem segments_lt (ip : BitVec 128) : ∀ n ∈ IpAddr.segments ip, n < 65536 := by
  intro n member
  obtain ⟨shift, -, rfl⟩ := List.mem_map.mp member
  exact Nat.mod_lt _ (by decide)

/-- An address mapped from IPv4. -/
theorem fromSegments_mapped {ip : BitVec 128} {ipv4 : BitVec 32}
    (mapped : toIpv4Mapped ip = some ipv4) :
    fromSegments ([] ++ List.replicate 5 0 ++ 0xffff :: ipv4Groups ipv4) = ip := by
  obtain ⟨high, same⟩ := Option.ite_none_right_eq_some.mp mapped
  obtain rfl := Option.some.inj same
  have low : (ip.truncate 32).toNat = ip.toNat % 2 ^ 32 := BitVec.toNat_setWidth ..
  have joined : fromDigits 65536 (0xffff :: ipv4Groups (ip.truncate 32)) =
      0xffff * 2 ^ 32 + fromDigits 65536 (ipv4Groups (ip.truncate 32)) := by
    simp only [fromDigits, ipv4Groups, octets, List.map_cons, List.map_nil, List.foldl_cons,
      List.foldl_nil]
    omega
  have value : fromDigits 65536 ([] ++ List.replicate 5 0 ++ 0xffff :: ipv4Groups (ip.truncate 32))
      = ip.toNat := by
    rw [List.nil_append, fromDigits_zeros, joined, fromDigits_ipv4Groups, low, ← high]
    exact Nat.div_add_mod' ..
  rw [fromSegments, value, BitVec.ofNat_toNat, BitVec.setWidth_eq]

/-- Any run of zeros may be left out. -/
theorem spellsIpv6_of_isZeros (ip : BitVec 128) {span : Span}
    (zeros : IsZeros (IpAddr.segments ip) span) (inside : span.start + span.len ≤ 8)
    (some : 0 < span.len) :
    SpellsIpv6 (fmtSubslice ((IpAddr.segments ip).take span.start) ++ ':' :: ':' ::
      fmtSubslice ((IpAddr.segments ip).drop (span.start + span.len))) ip := by
  have eight : (IpAddr.segments ip).length = 8 := rfl
  have bound := segments_lt ip
  have filled := fill_zeros zeros (eight ▸ inside)
  generalize headIs : (IpAddr.segments ip).take span.start = head at filled ⊢
  generalize tailIs : (IpAddr.segments ip).drop (span.start + span.len) = tail at filled ⊢
  have headLength : head.length = span.start := by
    rw [← headIs, List.length_take]
    omega
  have tailLength : tail.length = 8 - (span.start + span.len) := by
    rw [← tailIs, List.length_drop, eight]
  have isHead : SpellsGroups 0 (fmtSubslice head) head false :=
    spellsGroups_fmtSubslice fun n member => bound n (List.mem_of_mem_take (headIs ▸ member))
  have isTail : SpellsGroups 0 (fmtSubslice tail) tail false :=
    spellsGroups_fmtSubslice fun n member => bound n (List.mem_of_mem_drop (tailIs ▸ member))
  have spelled := SpellsIpv6.compressed isHead isTail (by omega)
  rw [show 8 - tail.length - head.length = span.len by omega, filled, fromSegments_segments]
    at spelled
  exact spelled

theorem spellsIpv6_displayV6 (ip : BitVec 128) : SpellsIpv6 (displayV6 ip) ip := by
  unfold displayV6
  split
  · rename_i ipv4 mapped
    have first : IsNumber 16 (some 4) true 16 "ffff".toList 0xffff :=
      isNumber_group (n := 0xffff) (by decide)
    have tail : SpellsGroups 0 ("ffff".toList ++ (lead ':' 1 ++ displayV4 ipv4))
        (0xffff :: ipv4Groups ipv4) true :=
      .cons first (.ipv4 (spellsIpv4_displayV4 ipv4))
    have spelled := SpellsIpv6.compressed (s := []) .nil tail (Nat.le_of_ble_eq_true rfl)
    rw [← fromSegments_mapped mapped]
    exact spelled
  · simp only
    split
    · rename_i long
      exact spellsIpv6_of_isZeros ip (isZeros_longestZeros _) (longestZeros_le _)
        (Nat.lt_trans Nat.one_pos long)
    · have spelled := SpellsIpv6.full (spellsGroups_fmtSubslice (segments_lt ip)) rfl
      rw [fromSegments_segments] at spelled
      exact spelled

end IpAddr

namespace SocketAddr

open IpAddr

def flowinfo : SocketAddr → BitVec 32
  | .v4 .. => 0
  | .v6 _ _ flowinfo _ => flowinfo

theorem spellsPort_toDigits (port : BitVec 16) : SpellsPort (Nat.toDigits 10 port.toNat) port :=
  ⟨port.toNat, isNumber_toDigits (by decide) (by decide) nofun port.isLt, by simp⟩

/-- After an IPv6 address stands its scope, if it has one. -/
theorem displayHost_v6 (ip : BitVec 128) (port : BitVec 16) (flowinfo scopeId : BitVec 32) :
    ∃ scope, displayHost (.v6 ip port flowinfo scopeId) = displayV6 ip ++ scope ∧
      SpellsScope scope scopeId := by
  rw [displayHost]
  split
  · rename_i unscoped
    exact ⟨[], (List.append_nil _).symm, .inl ⟨rfl, unscoped⟩⟩
  · refine ⟨_, rfl, .inr ⟨_, scopeId.toNat, rfl, ?_, by simp⟩⟩
    exact isNumber_toDigits (by decide) (by decide) nofun scopeId.isLt

theorem spells_display {addr : SocketAddr} (plain : addr.flowinfo = 0) :
    Spells addr.display addr := by
  cases addr with
  | v4 ip port => exact .v4 (spellsIpv4_displayV4 ip) (spellsPort_toDigits port)
  | v6 ip port flowinfo scopeId =>
      obtain rfl : flowinfo = 0 := plain
      obtain ⟨scope, host, isScope⟩ := displayHost_v6 ip port 0 scopeId
      rw [display, host]
      exact .v6 (spellsIpv6_displayV6 ip) isScope (spellsPort_toDigits port)

end SocketAddr

end RangePorter
