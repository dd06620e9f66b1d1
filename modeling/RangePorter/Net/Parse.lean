import RangePorter.Net
import RangePorter.Net.Display
import RangePorter.Text.Parser

/-!
# Reading socket addresses

`FromStr` of the standard library: an IPv4 address of four decimal bytes; an IPv6 address
of eight groups of hexadecimal digits, of which an IPv4 address may stand for the last two
and `::` for zeros. The parser reads bytes; a character beyond ASCII is no digit and no
separator in either reading. What it accepts is exactly what the grammar `Spells` derives.
-/

namespace RangePorter

open Text

namespace IpAddr

/-- The number with these digits, the most significant one first. -/
def fromDigits (base : Nat) (digits : List Nat) : Nat :=
  digits.foldl (fun n digit => n * base + digit) 0

def fromOctets (octets : List Nat) : BitVec 32 := .ofNat 32 (fromDigits 256 octets)

def fromSegments (segments : List Nat) : BitVec 128 := .ofNat 128 (fromDigits 65536 segments)

def readIpv4Addr (s : Str) : Option (BitVec 32 × Str) :=
  (readSlots '.' (readNumber 10 (some 3) false 8) 4 0 s).map (Prod.map fromOctets id)

/-- The two groups that an IPv4 address stands for. -/
def ipv4Groups (ip : BitVec 32) : List Nat :=
  match octets ip with
  | [one, two, three, four] => [one * 256 + two, three * 256 + four]
  | _ => []

/-- The loop over the slots that are left, the first of them at the given index. An IPv4
address needs two. The flag tells whether there was one. -/
def readGroups : (left index : Nat) → Str → List Nat × Bool × Str
  | 0, _, s => ([], false, s)
  | left + 1, index, s =>
      match if 0 < left then readSeparator ':' index readIpv4Addr s else none with
      | some (ip, s) => (ipv4Groups ip, true, s)
      | none =>
          match readSeparator ':' index (readNumber 16 (some 4) true 16) s with
          | some (group, s) =>
              let (groups, ipv4, s) := readGroups left (index + 1) s
              (group :: groups, ipv4, s)
          | none => ([], false, s)

def readIpv6Addr (s : Str) : Option (BitVec 128 × Str) :=
  let (head, headIpv4, s) := readGroups 8 0 s
  if head.length = 8 then some (fromSegments head, s)
  else if headIpv4 then none
  else do
    let s ← stripPrefix ':' s
    let s ← stripPrefix ':' s
    let (tail, _, s) := readGroups (8 - (head.length + 1)) 0 s
    let zeroes := List.replicate (8 - tail.length - head.length) 0
    some (fromSegments (head ++ zeroes ++ tail), s)

/-! ### The grammar -/

def SpellsIpv4 (s : Str) (ip : BitVec 32) : Prop :=
  ∃ octets, (Separated '.' (IsNumber 10 (some 3) false 8) 0 s octets ∧ octets.length = 4) ∧
    ip = fromOctets octets

/-- Groups from the given index on; the flag tells whether an IPv4 address stands for the
last two. -/
inductive SpellsGroups : Nat → Str → List Nat → Bool → Prop where
  | nil {index : Nat} : SpellsGroups index [] [] false
  | ipv4 {index : Nat} {t : Str} {ip : BitVec 32} (spells : SpellsIpv4 t ip) :
      SpellsGroups index (lead ':' index ++ t) (ipv4Groups ip) true
  | cons {index group : Nat} {t s : Str} {groups : List Nat} {ipv4 : Bool}
      (first : IsNumber 16 (some 4) true 16 t group)
      (others : SpellsGroups (index + 1) s groups ipv4) :
      SpellsGroups index (lead ':' index ++ (t ++ s)) (group :: groups) ipv4

inductive SpellsIpv6 : Str → BitVec 128 → Prop where
  | full {s : Str} {groups : List Nat} {ipv4 : Bool} (spells : SpellsGroups 0 s groups ipv4)
      (eight : groups.length = 8) : SpellsIpv6 s (fromSegments groups)
  | compressed {s t : Str} {head tail : List Nat} {ipv4 : Bool}
      (isHead : SpellsGroups 0 s head false) (isTail : SpellsGroups 0 t tail ipv4)
      (short : head.length + tail.length ≤ 7) :
      SpellsIpv6 (s ++ ':' :: ':' :: t) (fromSegments
        (head ++ List.replicate (8 - tail.length - head.length) 0 ++ tail))

/-- What follows a group neither continues it nor makes it the first byte of an IPv4 address. -/
def EndsGroup (rest : Str) : Prop := EndsNumber 16 rest ∧ rest.head? ≠ some '.'

/-- What follows groups does not continue them. -/
def EndsGroups (rest : Str) : Prop :=
  EndsGroup rest ∧ ∀ more, rest = ':' :: more → EndsNumber 16 more

variable {s t rest : Str} {left index group n : Nat} {groups : List Nat} {flag : Bool}
  {ip : BitVec 32} {c : Char}

/-! ### IPv4 addresses -/

theorem parses_readIpv4Addr : Parses readIpv4Addr SpellsIpv4 (EndsNumber 10) := by
  have octets : Parses (readSlots '.' (readNumber 10 (some 3) false 8) 4 0) _ (EndsNumber 10) :=
    parses_readNumber.readSlots (fun s => endsNumber_cons.mpr (by decide)) 3 0
  intro s ip rest
  simp only [readIpv4Addr, Option.map_eq_some_iff, Prod.exists, Prod.map_apply, id_eq,
    Prod.mk.injEq, octets _ _ _]
  constructor
  · rintro ⟨octets, _, ⟨t, rfl, isOctets, ends⟩, rfl, rfl⟩
    exact ⟨t, rfl, ⟨octets, isOctets, rfl⟩, ends⟩
  · rintro ⟨t, rfl, ⟨octets, isOctets, rfl⟩, ends⟩
    exact ⟨octets, rest, ⟨t, rfl, isOctets, ends⟩, rfl, rfl⟩

theorem length_ipv4Groups (ip : BitVec 32) : (ipv4Groups ip).length = 2 := rfl

theorem SpellsIpv4.first (spells : SpellsIpv4 t ip) :
    ∃ octet n others, t = octet ++ '.' :: others ∧ IsNumber 10 (some 3) false 8 octet n := by
  obtain ⟨octets, ⟨separated, four⟩, -⟩ := spells
  cases separated with
  | nil => cases four
  | cons first others =>
      cases others with
      | nil => cases four
      | cons => exact ⟨_, _, _, rfl, first⟩

theorem SpellsIpv4.not_mem (spells : SpellsIpv4 t ip) (dot : c ≠ '.')
    (other : toDigit 10 c = none) : c ∉ t := by
  obtain ⟨octets, ⟨separated, -⟩, -⟩ := spells
  exact separated.not_mem (fun _ _ isNumber => isNumber.not_mem other) dot

theorem readIpv4Addr_eq_none (ends : EndsNumber 10 s) : readIpv4Addr s = none := by
  cases read : readIpv4Addr s with
  | none => rfl
  | some result =>
      obtain ⟨t, rfl, spells, -⟩ := (parses_readIpv4Addr _ _ _).mp read
      obtain ⟨octet, n, others, rfl, isNumber⟩ := spells.first
      rw [List.append_assoc] at ends
      exact absurd ends (isNumber.not_endsNumber _)

/-- A group is no byte of an IPv4 address, unless a dot follows. -/
theorem readIpv4Addr_group (isGroup : IsNumber 16 (some 4) true 16 t group)
    (ends : EndsGroup rest) : readIpv4Addr (t ++ rest) = none := by
  cases read : readIpv4Addr (t ++ rest) with
  | none => rfl
  | some result =>
      obtain ⟨u, joined, spells, -⟩ := (parses_readIpv4Addr _ _ _).mp read
      obtain ⟨octet, n, others, rfl, isNumber⟩ := spells.first
      rw [List.append_assoc, List.cons_append] at joined
      obtain ⟨more, longer, follows⟩ | ⟨more, shorter, follows⟩ :=
        List.append_eq_append_iff.mp joined
      · cases more with
        | nil => exact absurd (congrArg List.head? follows) ends.2
        | cons c more =>
            -- the group would go on with a digit of the byte
            have member : c ∈ octet := by simp [longer]
            obtain ⟨digit, isDigit⟩ :=
              Option.isSome_iff_exists.mp (isSome_toDigit_of_numeral isNumber.denotes member)
            rw [follows, List.cons_append, EndsGroup, endsNumber_cons,
              toDigit_mono (by decide) isDigit] at ends
            cases ends.1
      · cases more with
        | nil => exact absurd (congrArg List.head? follows.symm) ends.2
        | cons c more =>
            obtain ⟨rfl, -⟩ := List.cons.inj follows
            have member : '.' ∈ t := by simp [shorter]
            exact absurd (isSome_toDigit_of_numeral isGroup.denotes member) (by decide)

/-! ### Groups -/

theorem readSeparator_eq_none {β : Type} {read : Str → Option (β × Str)} {radix : Nat}
    (none : ∀ s, EndsNumber radix s → read s = none) (head : EndsNumber radix rest)
    (more : ∀ s, rest = ':' :: s → EndsNumber radix s) :
    readSeparator ':' index read rest = Option.none := by
  cases index with
  | zero => exact none rest head
  | succ index =>
      cases stripped : stripPrefix ':' rest with
      | none => simp [readSeparator, stripped]
      | some s =>
          simp [readSeparator, stripped, none s (more s (stripPrefix_eq_some_iff.mp stripped))]

theorem readGroups_sound {s : Str} (read : readGroups left index s = (groups, flag, rest)) :
    ∃ t, s = t ++ rest ∧ SpellsGroups index t groups flag ∧ groups.length ≤ left := by
  induction left generalizing index s groups with
  | zero =>
      cases read
      exact ⟨[], rfl, .nil, Nat.le_refl _⟩
  | succ left ih =>
      rw [readGroups] at read
      split at read
      · rename_i ip middle ipv4
        cases read
        obtain ⟨two, ipv4⟩ := Option.ite_none_right_eq_some.mp ipv4
        obtain ⟨t, rfl, own⟩ := readSeparator_eq_some_iff.mp ipv4
        obtain ⟨u, rfl, spells, -⟩ := (parses_readIpv4Addr _ _ _).mp own
        refine ⟨lead ':' index ++ u, (List.append_assoc ..).symm, .ipv4 spells, ?_⟩
        rw [length_ipv4Groups]
        exact Nat.succ_le_succ two
      · split at read
        · rename_i group middle number
          cases read
          obtain ⟨t, rfl, own⟩ := readSeparator_eq_some_iff.mp number
          obtain ⟨u, rfl, isGroup, -⟩ := readNumber_eq_some_iff.mp own
          obtain ⟨v, rest, spells, short⟩ := @ih (index + 1) _ _ rfl
          refine ⟨lead ':' index ++ (u ++ v), ?_, .cons isGroup spells, Nat.succ_le_succ short⟩
          rw [List.append_assoc, List.append_assoc, ← rest]
        · cases read
          exact ⟨[], rfl, .nil, Nat.zero_le _⟩

theorem SpellsGroups.endsGroup {t : Str} (spells : SpellsGroups (index + 1) t groups flag)
    (ends : EndsGroup rest) : EndsGroup (t ++ rest) := by
  have colon : ∀ s, EndsGroup (':' :: s) := fun s => ⟨endsNumber_cons.mpr (by decide), by simp⟩
  cases spells with
  | nil => exact ends
  | ipv4 => exact colon _
  | cons => exact colon _

theorem SpellsGroups.not_mem (spells : SpellsGroups index t groups flag) (dot : c ≠ '.')
    (colon : c ≠ ':') (other : toDigit 16 c = none) : c ∉ t := by
  have decimal : toDigit 10 c = none := toDigit_eq_none (by decide) other
  have outside : ∀ index, c ∉ lead ':' index := by
    intro index
    cases index <;> simp [colon]
  induction spells with
  | nil => exact List.not_mem_nil
  | ipv4 spells => simp [outside, spells.not_mem dot decimal]
  | cons first _ ih => simp [outside, first.not_mem other, ih]

/-- All groups are taken, if no others follow and the slots suffice. -/
theorem readGroups_complete (spells : SpellsGroups index t groups flag) (ends : EndsGroups rest)
    (fits : groups.length ≤ left) : readGroups left index (t ++ rest) = (groups, flag, rest) := by
  induction spells generalizing left with
  | @nil index =>
      cases left with
      | zero => rfl
      | succ left =>
          have noIpv4 : readSeparator ':' index readIpv4Addr rest = none :=
            readSeparator_eq_none (fun s => readIpv4Addr_eq_none) (ends.1.1.mono (by decide))
              fun s same => (ends.2 s same).mono (by decide)
          have noNumber : readSeparator ':' index (readNumber 16 (some 4) true 16) rest = none :=
            readSeparator_eq_none (fun s => readNumber_eq_none) ends.1.1 ends.2
          simp [readGroups, noIpv4, noNumber]
  | @ipv4 index t ip spells =>
      rw [length_ipv4Groups] at fits
      obtain ⟨left, rfl⟩ : ∃ n, left = n + 1 + 1 := ⟨left - 2, by omega⟩
      have own := parses_readIpv4Addr.complete spells (ends.1.1.mono (by decide))
      rw [readGroups, if_pos left.succ_pos, List.append_assoc, readSeparator_lead, own]
  | @cons index group t s groups flag first others ih =>
      obtain ⟨left, rfl⟩ : ∃ n, left = n + 1 := ⟨left - 1, by rw [List.length_cons] at fits; omega⟩
      have follows : EndsGroup (s ++ rest) := others.endsGroup ends.1
      have own : readNumber 16 (some 4) true 16 (t ++ (s ++ rest)) = some (group, s ++ rest) :=
        parses_readNumber.complete first follows.1
      have remaining := ih (Nat.le_of_succ_le_succ fits)
      rw [readGroups, List.append_assoc, List.append_assoc, readSeparator_lead, readSeparator_lead,
        readIpv4Addr_group first follows, ite_self, own]
      simp only [remaining]

/-! ### IPv6 addresses -/

variable {ipv6 : BitVec 128}

theorem readIpv6Addr_sound {s : Str} (read : readIpv6Addr s = some (ipv6, rest)) :
    ∃ t, s = t ++ rest ∧ SpellsIpv6 t ipv6 := by
  obtain ⟨head, headIpv4, middle, first⟩ : ∃ head headIpv4 middle,
      readGroups 8 0 s = (head, headIpv4, middle) := ⟨_, _, _, rfl⟩
  obtain ⟨t, rfl, isHead, long⟩ := readGroups_sound first
  simp only [readIpv6Addr, first] at read
  split at read
  · rename_i eight
    cases read
    exact ⟨t, rfl, .full isHead eight⟩
  · rename_i fewer
    cases headIpv4 with
    | true => simp at read
    | false =>
        simp only [Bool.false_eq_true, if_false, Option.bind_eq_bind,
          Option.bind_eq_some_iff] at read
        obtain ⟨more, colon, last, colon', read⟩ := read
        obtain rfl := stripPrefix_eq_some_iff.mp colon
        obtain rfl := stripPrefix_eq_some_iff.mp colon'
        obtain ⟨tail, ipv4, end', second⟩ : ∃ tail ipv4 end',
            readGroups (8 - (head.length + 1)) 0 last = (tail, ipv4, end') := ⟨_, _, _, rfl⟩
        obtain ⟨u, rfl, isTail, short⟩ := readGroups_sound second
        simp only [second, Option.some.injEq, Prod.mk.injEq] at read
        obtain ⟨rfl, rfl⟩ := read
        refine ⟨t ++ ':' :: ':' :: u, ?_, .compressed isHead isTail (by omega)⟩
        rw [List.append_assoc]
        rfl

theorem readIpv6Addr_complete (spells : SpellsIpv6 t ipv6) (ends : EndsGroups rest) :
    readIpv6Addr (t ++ rest) = some (ipv6, rest) := by
  cases spells with
  | @full _ groups ipv4 spells eight =>
      have all := readGroups_complete spells ends (Nat.le_of_eq eight)
      simp [readIpv6Addr, all, eight]
  | @compressed s t head tail ipv4 isHead isTail short =>
      have colons : EndsGroups (':' :: ':' :: (t ++ rest)) := by
        refine ⟨⟨endsNumber_cons.mpr (by decide), by simp⟩, ?_⟩
        intro more same
        obtain ⟨-, rfl⟩ := List.cons.inj same
        exact endsNumber_cons.mpr (by decide)
      have first : readGroups 8 0 (s ++ ':' :: ':' :: (t ++ rest)) = (head, false, _) :=
        readGroups_complete isHead colons (by omega)
      have second : readGroups (7 - head.length) 0 (t ++ rest) = (tail, ipv4, rest) :=
        readGroups_complete isTail ends (by omega)
      have fewer : head.length ≠ 8 := by omega
      simp [readIpv6Addr, first, fewer, stripPrefix, second]

theorem SpellsIpv6.not_mem (spells : SpellsIpv6 t ipv6) (dot : c ≠ '.') (colon : c ≠ ':')
    (other : toDigit 16 c = none) : c ∉ t := by
  cases spells with
  | full spells => exact spells.not_mem dot colon other
  | compressed isHead isTail =>
      simp [isHead.not_mem dot colon other, isTail.not_mem dot colon other, colon]

end IpAddr

namespace SocketAddr

open IpAddr

def readPort (s : Str) : Option (BitVec 16 × Str) := do
  let s ← stripPrefix ':' s
  let (port, s) ← readNumber 10 none true 16 s
  some (.ofNat 16 port, s)

def readScopeId (s : Str) : Option (BitVec 32 × Str) := do
  let s ← stripPrefix '%' s
  let (scopeId, s) ← readNumber 10 none true 32 s
  some (.ofNat 32 scopeId, s)

def readSocketAddrV4 (s : Str) : Option (SocketAddr × Str) := do
  let (ip, s) ← readIpv4Addr s
  let (port, s) ← readPort s
  some (.v4 ip port, s)

/-- A scope that cannot be read counts as none, and its text stays. -/
def readSocketAddrV6 (s : Str) : Option (SocketAddr × Str) := do
  let s ← stripPrefix '[' s
  let (ip, s) ← readIpv6Addr s
  let (scopeId, s) := (readScopeId s).getD (0, s)
  let s ← stripPrefix ']' s
  let (port, s) ← readPort s
  some (.v6 ip port 0 scopeId, s)

def readSocketAddr (s : Str) : Option (SocketAddr × Str) :=
  readSocketAddrV4 s <|> readSocketAddrV6 s

/-- `raw.parse::<SocketAddr>()`. -/
def parse (raw : Str) : Option SocketAddr :=
  match readSocketAddr raw with
  | some (addr, []) => some addr
  | _ => none

/-! ### The grammar -/

def SpellsPort (s : Str) (port : BitVec 16) : Prop :=
  ∃ n, IsNumber 10 none true 16 s n ∧ port = .ofNat 16 n

def SpellsScope (s : Str) (scopeId : BitVec 32) : Prop :=
  s = [] ∧ scopeId = 0 ∨
    ∃ t n, s = '%' :: t ∧ IsNumber 10 none true 32 t n ∧ scopeId = .ofNat 32 n

inductive Spells : Str → SocketAddr → Prop where
  | v4 {host text : Str} {ip : BitVec 32} {port : BitVec 16} (isIp : SpellsIpv4 host ip)
      (isPort : SpellsPort text port) : Spells (host ++ ':' :: text) (.v4 ip port)
  | v6 {host scope text : Str} {ip : BitVec 128} {port : BitVec 16} {scopeId : BitVec 32}
      (isIp : SpellsIpv6 host ip) (isScope : SpellsScope scope scopeId)
      (isPort : SpellsPort text port) :
      Spells ('[' :: (host ++ scope ++ ']' :: ':' :: text)) (.v6 ip port 0 scopeId)

variable {s text rest raw : Str} {port : BitVec 16} {addr : SocketAddr}

theorem SpellsPort.not_mem {c : Char} (isPort : SpellsPort text port)
    (other : toDigit 10 c = none) : c ∉ text := by
  obtain ⟨n, isNumber, -⟩ := isPort
  exact isNumber.not_mem other

theorem readPort_eq_some_iff :
    readPort s = some (port, rest) ↔
      ∃ text, s = ':' :: (text ++ rest) ∧ SpellsPort text port ∧ EndsNumber 10 rest := by
  simp only [readPort, Option.bind_eq_bind, Option.bind_eq_some_iff, stripPrefix_eq_some_iff,
    Prod.exists, readNumber_eq_some_iff, Option.some.injEq, Prod.mk.injEq]
  constructor
  · rintro ⟨_, rfl, n, _, ⟨text, rfl, isNumber, ends⟩, rfl, rfl⟩
    exact ⟨text, rfl, ⟨n, isNumber, rfl⟩, ends⟩
  · rintro ⟨text, rfl, ⟨n, isNumber, rfl⟩, ends⟩
    exact ⟨_, rfl, n, rest, ⟨text, rfl, isNumber, ends⟩, rfl, rfl⟩

theorem readScopeId_sound {scopeId : BitVec 32} (read : readScopeId s = some (scopeId, rest)) :
    ∃ scope, s = scope ++ rest ∧ SpellsScope scope scopeId := by
  simp only [readScopeId, Option.bind_eq_bind, Option.bind_eq_some_iff, stripPrefix_eq_some_iff,
    Prod.exists, readNumber_eq_some_iff, Option.some.injEq, Prod.mk.injEq] at read
  obtain ⟨_, rfl, n, _, ⟨t, rfl, isNumber, -⟩, rfl, rfl⟩ := read
  exact ⟨'%' :: t, rfl, .inr ⟨t, n, rfl, isNumber, rfl⟩⟩

/-- A scope is read up to the bracket that closes the host. -/
theorem readScopeId_complete {scope : Str} {scopeId : BitVec 32}
    (isScope : SpellsScope scope scopeId) (s : Str) :
    (readScopeId (scope ++ ']' :: s)).getD (0, scope ++ ']' :: s) = (scopeId, ']' :: s) := by
  obtain ⟨rfl, rfl⟩ | ⟨t, n, rfl, isNumber, rfl⟩ := isScope
  · simp [readScopeId, stripPrefix]
  · have own : readNumber 10 none true 32 (t ++ ']' :: s) = some (n, ']' :: s) :=
      parses_readNumber.complete isNumber (endsNumber_cons.mpr (by decide))
    simp [readScopeId, stripPrefix, own]

theorem readSocketAddrV4_sound (read : readSocketAddrV4 s = some (addr, rest)) :
    ∃ t, s = t ++ rest ∧ Spells t addr := by
  simp only [readSocketAddrV4, Option.bind_eq_bind, Option.bind_eq_some_iff, Prod.exists,
    Option.some.injEq, Prod.mk.injEq] at read
  obtain ⟨ip, _, ipRead, port, _, portRead, rfl, rfl⟩ := read
  obtain ⟨text, rfl, isPort, -⟩ := readPort_eq_some_iff.mp portRead
  obtain ⟨host, rfl, isIp, -⟩ := (parses_readIpv4Addr _ _ _).mp ipRead
  exact ⟨host ++ ':' :: text, by rw [List.append_assoc]; rfl, .v4 isIp isPort⟩

theorem readSocketAddrV6_sound (read : readSocketAddrV6 s = some (addr, rest)) :
    ∃ t, s = t ++ rest ∧ Spells t addr := by
  simp only [readSocketAddrV6, Option.bind_eq_bind, Option.bind_eq_some_iff, Prod.exists,
    stripPrefix_eq_some_iff, Option.some.injEq, Prod.mk.injEq] at read
  obtain ⟨_, rfl, ip, middle, ipRead, closed, closes, port, _, portRead, rfl, rfl⟩ := read
  obtain ⟨text, rfl, isPort, -⟩ := readPort_eq_some_iff.mp portRead
  obtain ⟨host, rfl, isIp⟩ := readIpv6Addr_sound ipRead
  obtain ⟨scope, isScope, opens⟩ : ∃ scope,
      SpellsScope scope ((readScopeId middle).getD (0, middle)).1 ∧
      middle = scope ++ ((readScopeId middle).getD (0, middle)).2 := by
    cases read : readScopeId middle with
    | none => exact ⟨[], .inl ⟨rfl, rfl⟩, rfl⟩
    | some result =>
        obtain ⟨scope, same, isScope⟩ := readScopeId_sound read
        exact ⟨scope, isScope, same⟩
  refine ⟨_, ?_, .v6 isIp isScope isPort⟩
  rw [closes] at opens
  rw [opens]
  simp

/-- The parser accepts what the grammar derives, and reads it as that address. -/
theorem parse_eq_some_iff : parse raw = some addr ↔ Spells raw addr := by
  constructor
  · intro parsed
    unfold parse at parsed
    split at parsed
    case h_2 => cases parsed
    case h_1 read =>
        cases parsed
        obtain ⟨t, rfl, spells⟩ : ∃ t, raw = t ++ [] ∧ Spells t addr := by
          rw [readSocketAddr, Option.orElse_eq_orElse, Option.orElse_eq_or] at read
          obtain v4 | ⟨-, v6⟩ := Option.or_eq_some_iff.mp read
          · exact readSocketAddrV4_sound v4
          · exact readSocketAddrV6_sound v6
        rw [List.append_nil]
        exact spells
  · intro spells
    cases spells with
    | @v4 host text ip port isIp isPort =>
        have ipRead := parses_readIpv4Addr.complete isIp
          (endsNumber_cons.mpr (by decide) : EndsNumber 10 (':' :: text))
        have portRead : readPort (':' :: text) = some (port, []) :=
          readPort_eq_some_iff.mpr ⟨text, by rw [List.append_nil], isPort, endsNumber_nil⟩
        have whole : readSocketAddrV4 (host ++ ':' :: text) = some (.v4 ip port, []) := by
          simp [readSocketAddrV4, ipRead, portRead]
        simp [parse, readSocketAddr, whole]
    | @v6 host scope text ip port scopeId isIp isScope isPort =>
        have noIpv4 (s : Str) : readSocketAddrV4 ('[' :: s) = none := by
          have none := readIpv4Addr_eq_none (s := '[' :: s) (endsNumber_cons.mpr (by decide))
          simp [readSocketAddrV4, none]
        have ends : EndsGroups (scope ++ ']' :: ':' :: text) := by
          obtain ⟨rfl, -⟩ | ⟨t, n, rfl, -, -⟩ := isScope
          · exact ⟨⟨endsNumber_cons.mpr (by decide), by simp⟩, by simp⟩
          · exact ⟨⟨endsNumber_cons.mpr (by decide), by simp⟩, by simp⟩
        have ipRead := readIpv6Addr_complete isIp ends
        have scopeRead := readScopeId_complete isScope (':' :: text)
        have portRead : readPort (':' :: text) = some (port, []) :=
          readPort_eq_some_iff.mpr ⟨text, by rw [List.append_nil], isPort, endsNumber_nil⟩
        have whole : readSocketAddrV6 ('[' :: (host ++ scope ++ ']' :: ':' :: text)) =
            some (.v6 ip port 0 scopeId, []) := by
          rw [List.append_assoc]
          simp only [readSocketAddrV6, stripPrefix, if_true, Option.bind_eq_bind, Option.bind_some,
            ipRead, scopeRead, portRead]
        simp only [parse, readSocketAddr, noIpv4, whole, Option.orElse_eq_orElse,
          Option.orElse_eq_or, Option.none_or]

end SocketAddr

end RangePorter
