import Mathlib.Order.Interval.Set.Defs
import PvNet.Config
import PvNet.Proofs.Net.AddressTexts
import PvNet.Proofs.Net.RuleTexts
import PvNet.Proofs.Number.Numerals
import PvNet.Proofs.Number.Seconds
set_option autoImplicit false

/-!
# Settings from an environment

Which texts each variable takes is said by a grammar (`Setting.Accepts`), for addresses
together with what names of hosts stand for, and any other text leaves the default.  A
period is a numeral, which goes through two roundings: to a floating-point number and
from there to nanoseconds.  Only the range of the first one is checked, so there are
positive numbers of seconds for which the second one has no result or gives no time at
all.  Both are intervals of the numbers that the texts stand for (`Period.tooLong`,
`Period.tooShort`), and outside of them an environment gives periods that can be waited
for (`Config.periods_usable_iff`).
-/

namespace PvNet

/-! ## Periods -/

/-- The variables that set a period. -/
inductive Period where
  | beacon
  | connection
  deriving DecidableEq, Repr

namespace Period

def key : Period → String
  | beacon => Config.beaconPeriodKey
  | connection => Config.connectionTimeoutKey

/-- The period that a configuration has. -/
def of (c : Config) : Period → Duration
  | beacon => c.beaconPeriod
  | connection => c.transport.connectionTimeout

/-- The numbers of seconds that are positive as floating-point numbers. -/
def positive : Set ℚ := Set.Ioo (2 ^ Binary64.minExponent / 2) Binary64.overflow

/-- The numbers of seconds that are positive as floating-point numbers, and less than a nanosecond
when they are rounded again. -/
def tooShort : Set ℚ := Set.Ioc (2 ^ Binary64.minExponent / 2) Duration.vanishing

/-- The numbers of seconds that are finite as floating-point numbers, and beyond the longest
duration. -/
def tooLong : Set ℚ := Set.Ico Duration.endless Binary64.overflow

theorem tooLong_subset : tooLong ⊆ positive := by
  have hleast : (2 : ℚ) ^ Binary64.minExponent ≤ 2 ^ (0 : Int) := Binary64.two_zpow_le (by decide)
  have hlow : (2 : ℚ) ^ Binary64.minExponent / 2 < Duration.endless := by
    have hone : 1 < Duration.endless := by norm_num [Duration.endless]
    rw [zpow_zero] at hleast
    linarith
  exact fun q hq => ⟨hlow.trans_le hq.1, hq.2⟩

theorem tooShort_subset : tooShort ⊆ positive := by
  have hlarge : (2 : ℚ) ^ (0 : Int) ≤ 2 ^ Binary64.maxExponent := Binary64.two_zpow_le (by decide)
  have hhigh : Duration.vanishing < Binary64.overflow := by
    have hone : Duration.vanishing < 1 := by norm_num [Duration.vanishing]
    have hmantissa : (1 : ℚ) ≤ 2 * Binary64.leastNormal - 1 / 2 := by
      norm_num [Binary64.leastNormal]
    rw [zpow_zero] at hlarge
    exact hone.trans_le (one_le_mul_of_one_le_of_one_le hmantissa hlarge)
  exact fun q hq => ⟨hq.1, hq.2.trans_lt hhigh⟩

end Period

namespace Config

variable {names : Resolver} {env : String → Option String} {key : String}

/-- A variable is set to a text that stands for a number. -/
def Holds (env : String → Option String) (key : String) (q : ℚ) : Prop :=
  ∃ s, setting? env key = some s ∧ Denotes s q

/-- What a variable for a period comes to: the default, or what the number in it is rounded to. -/
theorem period?_cases (env : String → Option String) (key : String) (default : Duration) :
    ((∀ q, Holds env key q → q ∉ Period.positive) ∧ period? env key default = some default) ∨
      ∃ q x, Holds env key q ∧ q ∈ Period.positive ∧ Binary64.Nearest q x ∧
        period? env key default = Duration.ofSeconds? x := by
  unfold period?
  cases hs : setting? env key with
  | none =>
    refine .inl ⟨?_, rfl⟩
    rintro q ⟨s, hs', -⟩
    rw [hs] at hs'
    cases hs'
  | some s =>
    rw [Option.bind_some]
    cases hx : Binary64.positive? s with
    | none =>
      refine .inl ⟨?_, rfl⟩
      rintro q ⟨s', hs', hq⟩ ⟨hpos, hlt⟩
      cases hs.symm.trans hs'
      rcases Binary64.positive?_eq_none_iff.mp hx q hq with h | h
      · exact absurd hpos h.not_gt
      · exact absurd hlt h.not_gt
    | some x =>
      obtain ⟨q, hq, hpos, hlt, hnear⟩ := Binary64.positive?_eq_some_iff.mp hx
      exact .inr ⟨q, x, ⟨s, hs, hq⟩, ⟨hpos, hlt⟩, hnear, rfl⟩

/-- A variable holds one number at most. -/
theorem Holds.unique {p q : ℚ} (hp : Holds env key p) (hq : Holds env key q) : p = q := by
  obtain ⟨s, hs, hp⟩ := hp
  obtain ⟨t, ht, hq⟩ := hq
  cases hs.symm.trans ht
  exact hp.unique hq

theorem period?_eq_none_iff {default : Duration} :
    period? env key default = none ↔ ∃ q, Holds env key q ∧ q ∈ Period.tooLong := by
  rcases period?_cases env key default with ⟨hnone, heq⟩ | ⟨q, x, hq, hpos, hnear, heq⟩
  · rw [heq]
    refine iff_of_false (by simp) ?_
    rintro ⟨q, hq, hlong⟩
    exact hnone q hq (Period.tooLong_subset hlong)
  · rw [heq, Duration.ofSeconds?_eq_none_iff hnear]
    constructor
    · intro hlong
      exact ⟨q, hq, hlong, hpos.2⟩
    · rintro ⟨q', hq', hlong⟩
      rw [hq.unique hq']
      exact hlong.1

theorem period?_eq_zero_iff {default d : Duration} (hdefault : 0 < default.nanoseconds)
    (h : period? env key default = some d) :
    d.nanoseconds = 0 ↔ ∃ q, Holds env key q ∧ q ∈ Period.tooShort := by
  rcases period?_cases env key default with ⟨hnone, heq⟩ | ⟨q, x, hq, hpos, hnear, heq⟩
  · rw [heq] at h
    cases h
    refine iff_of_false hdefault.ne' ?_
    rintro ⟨q, hq, hshort⟩
    exact hnone q hq (Period.tooShort_subset hshort)
  · rw [heq] at h
    rw [Duration.nanoseconds_eq_zero_iff hnear h]
    constructor
    · intro hshort
      exact ⟨q, hq, hpos.1, hshort⟩
    · rintro ⟨q', hq', hshort⟩
      rw [hq.unique hq']
      exact hshort.2

/-- The periods of a configuration are those of their variables. -/
theorem period?_of_ofEnvironment? {c : Config} (h : ofEnvironment? names env = some c)
    (p : Period) : period? env p.key (p.of {}) = some (p.of c) := by
  simp only [ofEnvironment?, Option.bind_eq_bind, Option.bind_eq_some_iff, Option.pure_def,
    Option.some.injEq] at h
  obtain ⟨beacon, hbeacon, connection, hconnection, rfl⟩ := h
  cases p
  · exact hbeacon
  · exact hconnection

/-- There is a configuration unless one of the periods has no duration. -/
theorem ofEnvironment?_eq_none_iff :
    ofEnvironment? names env = none ↔ ∃ p : Period, period? env p.key (p.of {}) = none := by
  constructor
  · intro h
    cases hbeacon : period? env Period.beacon.key (Period.beacon.of {}) with
    | none => exact ⟨.beacon, hbeacon⟩
    | some beacon =>
      cases hconnection : period? env Period.connection.key (Period.connection.of {}) with
      | none => exact ⟨.connection, hconnection⟩
      | some connection =>
        have hsome : (ofEnvironment? names env).isSome := by
          simp only [Period.key, Period.of] at hbeacon hconnection
          simp [ofEnvironment?, hbeacon, hconnection]
        rw [h] at hsome
        cases hsome
  · rintro ⟨p, hp⟩
    cases h : ofEnvironment? names env with
    | none => rfl
    | some c =>
      rw [period?_of_ofEnvironment? h p] at hp
      cases hp

end Config

/-! ## Settings -/

/-- The settings that a variable can change. -/
inductive Setting where
  | broadcastPort
  | serverPort
  | multicastGroup
  | addresses
  | autoAddresses
  | networkRules
  | period (p : Period)
  | receiveBufferSize
  deriving DecidableEq, Repr

namespace Setting

def key : Setting → String
  | broadcastPort => Config.broadcastPortKey
  | serverPort => Config.serverPortKey
  | multicastGroup => Config.multicastGroupKey
  | addresses => Config.addressesKey
  | autoAddresses => Config.autoAddressesKey
  | networkRules => Config.networkRulesKey
  | period p => p.key
  | receiveBufferSize => Config.receiveBufferSizeKey

/-- Two configurations have a setting in common. -/
def Agree (c d : Config) : Setting → Prop
  | broadcastPort => c.broadcastPort = d.broadcastPort
  | serverPort => c.serverPort = d.serverPort
  | multicastGroup => c.multicastGroup = d.multicastGroup
  | addresses => c.addresses = d.addresses
  | autoAddresses => c.autoAddresses = d.autoAddresses
  | networkRules => c.networkRules = d.networkRules
  | period p => p.of c = p.of d
  | receiveBufferSize => c.transport.receiveBufferSize = d.transport.receiveBufferSize

/-- The texts that a setting takes: for a list, those of which at least one item is taken. -/
def Accepts (names : Resolver) : Setting → String → Prop
  | broadcastPort, s | serverPort, s => ∃ n, Decimal.Whole s n ∧ n < 65536
  | multicastGroup, s =>
    ∃ a b c d : UInt8, 224 ≤ a ∧ a ≤ 239 ∧ s = (Ipv4.ofOctets a b c d).text
  | addresses, s =>
    ∃ word ∈ Text.words s, ∃ host, Endpoint.NamesHost word host ∧ names.Knows host
  | autoAddresses, s => Text.capitals s ∈ ["YES", "Y", "TRUE", "1", "NO", "N", "FALSE", "0"]
  | networkRules, s => ∃ item ∈ Text.fields ',' s, NetworkRule.Written (Text.trim item)
  | period _, s => ∃ q, Denotes s q ∧ q ∈ Period.positive
  | receiveBufferSize, s => ∃ n, Decimal.Whole s n ∧ n < 4294967296

end Setting

namespace Config

variable {names : Resolver} {env : String → Option String}

/-- A reader that gives nothing for the text of a variable leaves the default. -/
theorem getD_of_unread {α : Type} {read? : String → Option α} {get : Option String}
    (h : ∀ s, get = some s → read? s = none) (default : α) :
    (get.bind read?).getD default = default := by
  cases get with
  | none => rfl
  | some s => rw [Option.bind_some, h s rfl, Option.getD_none]

theorem yesNo?_eq_none {s : String} (h : ¬ Setting.autoAddresses.Accepts names s) :
    yesNo? s = none := by
  have hwords : Text.capitals s ∉ ["YES", "Y", "TRUE", "1"] ++ ["NO", "N", "FALSE", "0"] := h
  obtain ⟨hyes, hno⟩ := not_or.mp (mt List.mem_append.mpr hwords)
  simp only [yesNo?, if_neg hyes, if_neg hno]

theorem isMulticast_eq_false {s : String} (h : ¬ Setting.multicastGroup.Accepts names s) {a : Ipv4}
    (ha : Ipv4.ofText? s = some a) : a.isMulticast = false := by
  rw [Bool.eq_false_iff]
  intro hmulticast
  obtain ⟨p, q, r, t, rfl⟩ := a.exists_eq_ofOctets
  obtain ⟨hlow, hhigh⟩ := Ipv4.isMulticast_ofOctets_iff.mp hmulticast
  exact h ⟨p, q, r, t, hlow, hhigh, Ipv4.ofText?_eq_some_iff.mp ha⟩

theorem addressList_eq_nil {s : String} (h : ¬ Setting.addresses.Accepts names s) (port : UInt16) :
    addressList names s port = [] := by
  refine addressList_eq_nil_iff.mpr fun word hword =>
    Option.not_isSome_iff_eq_none.mp fun hsome => ?_
  exact h ⟨word, hword, Endpoint.isSome_ofWord?_iff.mp hsome⟩

theorem networkRules_eq_builtin {s : String} (h : ¬ Setting.networkRules.Accepts names s) :
    NetworkRules.ofList s = .builtin := by
  have hnone :
      (Text.fields ',' s).filterMap (fun item => NetworkRule.ofText? (Text.trim item)) = [] := by
    rw [List.filterMap_eq_nil_iff]
    exact fun item hitem => Option.not_isSome_iff_eq_none.mp fun hsome =>
      h ⟨item, hitem, NetworkRule.isSome_ofText?_iff.mp hsome⟩
  rw [NetworkRules.ofList, hnone, List.foldl_nil]

/-- A setting whose variable is not set to a text that it takes keeps its default. -/
theorem agree_default {c : Config} (h : ofEnvironment? names env = some c) {v : Setting}
    (hv : ∀ s, setting? env v.key = some s → ¬ v.Accepts names s) : v.Agree c {} := by
  have hperiod := period?_of_ofEnvironment? h
  simp only [ofEnvironment?, Option.bind_eq_bind, Option.bind_eq_some_iff, Option.pure_def,
    Option.some.injEq] at h
  obtain ⟨beacon, -, connection, -, rfl⟩ := h
  cases v with
  | broadcastPort => exact getD_of_unread (fun s hs => Decimal.word16?_eq_none_iff.mpr (hv s hs)) _
  | serverPort => exact getD_of_unread (fun s hs => Decimal.word16?_eq_none_iff.mpr (hv s hs)) _
  | multicastGroup =>
    have hnone : ((setting? env multicastGroupKey).bind Ipv4.ofText?).filter Ipv4.isMulticast =
        none := by
      rw [Option.filter_eq_none_iff]
      intro a ha
      obtain ⟨s, hs, ha⟩ := Option.bind_eq_some_iff.mp ha
      simp [isMulticast_eq_false (hv s hs) ha]
    simp only [Setting.Agree, hnone, Option.getD_none]
  | addresses =>
    simp only [Setting.Agree]
    cases hs : setting? env addressesKey with
    | none => rfl
    | some s => exact addressList_eq_nil (hv s hs) _
  | autoAddresses => exact getD_of_unread (fun s hs => yesNo?_eq_none (hv s hs)) _
  | networkRules =>
    simp only [Setting.Agree]
    cases hs : setting? env networkRulesKey with
    | none => rfl
    | some s => exact networkRules_eq_builtin (hv s hs)
  | period p =>
    rcases period?_cases env p.key (p.of {}) with ⟨-, heq⟩ | ⟨q, x, ⟨s, hs, hq⟩, hpos, -, -⟩
    · exact Option.some.inj ((hperiod p).symm.trans heq)
    · exact absurd ⟨q, hq, hpos⟩ (hv s hs)
  | receiveBufferSize =>
    have hnone : (setting? env receiveBufferSizeKey).bind Decimal.word32? = none := by
      rw [Option.bind_eq_none_iff]
      exact fun s hs => Decimal.word32?_eq_none_iff.mpr (hv s hs)
    simp only [Setting.Agree, hnone]

/-- A period is positive by default. -/
theorem default_period_pos (p : Period) : 0 < (p.of {}).nanoseconds := by
  cases p <;> decide

/-- An environment gives a configuration unless a period is too long, the periods are positive
unless they are too short, and any setting whose variable is not set to a text that it takes keeps
its default. -/
theorem periods_usable_iff (names : Resolver) (env : String → Option String) :
    ((ofEnvironment? names env).isSome ↔
        ∀ p : Period, ∀ q, Holds env p.key q → q ∉ Period.tooLong) ∧
      ∀ c, ofEnvironment? names env = some c →
        (∀ p : Period, 0 < (p.of c).nanoseconds ↔
          ∀ q, Holds env p.key q → q ∉ Period.tooShort) ∧
        ∀ v : Setting, (∀ s, setting? env v.key = some s → ¬ v.Accepts names s) → v.Agree c {} := by
  refine ⟨?_, fun c h => ⟨fun p => ?_, fun v hv => agree_default h hv⟩⟩
  · rw [Option.isSome_iff_ne_none, ne_eq, ofEnvironment?_eq_none_iff]
    simp only [period?_eq_none_iff, not_exists, not_and]
  · rw [Nat.pos_iff_ne_zero, ne_eq,
      period?_eq_zero_iff (default_period_pos p) (period?_of_ofEnvironment? h p)]
    simp only [not_exists, not_and]

/-- An environment with a usable period, one that is too short, and a group that is no group. -/
def mixedEnvironment (key : String) : Option String :=
  if key = beaconPeriodKey then some " 2.5"
  else if key = connectionTimeoutKey then some "1e-10"
  else if key = multicastGroupKey then some "10.0.0.1"
  else none

theorem holds_beaconPeriod : Holds mixedEnvironment beaconPeriodKey (25 * 10 ^ (-1 : Int)) := by
  have hdigits : Decimal.Digits (['2'] ++ ['5']) 25 := ⟨by decide, by simp, by decide⟩
  have h := Numeral.pointed hdigits .absent
  exact ⟨"2.5", by decide +kernel, .plain h⟩

theorem holds_connectionTimeout :
    Holds mixedEnvironment connectionTimeoutKey (1 * 10 ^ (-10 : Int)) := by
  have hdigits : Decimal.Digits ['1'] 1 := ⟨by decide, by simp, by decide⟩
  have hexponent : Decimal.Digits ['1', '0'] 10 := ⟨by decide, by simp, by decide⟩
  have h := Numeral.whole hdigits (.present (.inl rfl) (.minus hexponent))
  exact ⟨"1e-10", by decide +kernel, .plain (by exact_mod_cast h)⟩

theorem mixedEnvironment_usable :
    ∃ c, ofEnvironment? (fun _ => []) mixedEnvironment = some c ∧ 0 < c.beaconPeriod.nanoseconds ∧
      ¬ 0 < c.transport.connectionTimeout.nanoseconds ∧
      c.multicastGroup = .ofOctets 239 219 1 200 := by
  obtain ⟨c, hc⟩ : ∃ c, ofEnvironment? (fun _ => []) mixedEnvironment = some c :=
    Option.isSome_iff_exists.mp (by decide +kernel)
  obtain ⟨hpositive, hdefault⟩ := (periods_usable_iff (fun _ => []) mixedEnvironment).2 c hc
  refine ⟨c, hc, (hpositive .beacon).mpr fun q hq hshort => ?_, fun hpos => ?_,
    hdefault .multicastGroup fun s hs haccepts => ?_⟩
  · have hle := hshort.2
    rw [hq.unique holds_beaconPeriod] at hle
    norm_num [Duration.vanishing] at hle
  · refine (hpositive .connection).mp hpos _ holds_connectionTimeout ⟨?_, ?_⟩
    · calc (2 : ℚ) ^ Binary64.minExponent / 2 ≤ 2 ^ (-40 : Int) / 2 :=
            div_le_div_of_nonneg_right (Binary64.two_zpow_le (by decide)) (by norm_num)
        _ < 1 * 10 ^ (-10 : Int) := by norm_num
    · norm_num [Duration.vanishing]
  · obtain ⟨a, b, c, d, hlow, hhigh, htext⟩ := haccepts
    have hset : setting? mixedEnvironment multicastGroupKey = some "10.0.0.1" := by decide +kernel
    have htext : "10.0.0.1" = (Ipv4.ofOctets a b c d).text :=
      (Option.some.inj (hset.symm.trans hs)).trans htext
    have hread : Ipv4.ofText? "10.0.0.1" = some (.ofOctets 10 0 0 1) := by decide +kernel
    have hgroup : (Ipv4.ofOctets a b c d).isMulticast :=
      Ipv4.isMulticast_ofOctets_iff.mpr ⟨hlow, hhigh⟩
    rw [← Option.some.inj (hread.symm.trans (Ipv4.ofText?_eq_some_iff.mpr htext))] at hgroup
    exact absurd hgroup (by decide)

/-- A connection timeout of `1e20` seconds has no duration, and a beacon period of `1e-10` seconds
is no time at all. -/
theorem extreme_periods :
    ofEnvironment? (fun _ => [])
        (fun key => if key = connectionTimeoutKey then some "1e20" else none) = none ∧
      (ofEnvironment? (fun _ => [])
        fun key => if key = beaconPeriodKey then some "1e-10" else none).map (·.beaconPeriod) =
          some .zero := by
  decide +kernel

end Config

end PvNet
