import PvNet.Proofs.Configuration
import PvNet.Proofs.Net.RuleLists
import PvNet.Proofs.Number.Shortest
set_option autoImplicit false

/-!
# Settings that are set again

The entries of a configuration are an environment of their own.  What every
configuration from an environment has (`Config.Effective`) makes each of the texts one
that its variable takes and that stands for the setting that it shows.  Only periods go
through decimal digits and two roundings: of them it matters that no text is beyond the
longest duration, which would leave no configuration at all.  All other settings are the
same again (`Config.environment_reloads`).
-/

namespace PvNet

/-! ## Entries -/

/-- The text that the entry of a setting shows. -/
def Setting.shown (c : Config) : Setting → String
  | broadcastPort => toString c.broadcastPort.toNat
  | serverPort => toString c.serverPort.toNat
  | multicastGroup => c.multicastGroup.text
  | addresses => " ".intercalate (c.addresses.map Endpoint.text)
  | autoAddresses => if c.autoAddresses then "YES" else "NO"
  | networkRules => c.networkRules.text
  | period p => (p.of c).seconds.text
  | receiveBufferSize => toString c.transport.receiveBufferSize.toNat

namespace Config

variable {names names' : Resolver} {env : String → Option String} {c : Config}

/-- The environment that the entries of a configuration are. -/
def environment (c : Config) (key : String) : Option String := c.entries.lookup key

theorem environment_key (c : Config) (v : Setting) : c.environment v.key = some (v.shown c) := by
  cases v with
  | period p => cases p <;> rfl
  | _ => rfl

/-! ## What every configuration has -/

/-- What the settings of every configuration from an environment are like. -/
structure Effective (c : Config) : Prop where
  group : c.multicastGroup.isMulticast = true
  addresses : Endpoint.Listed c.addresses
  rules : c.networkRules.Sound
  reachable : ∀ p : Period, (p.of c).Reachable
  bufferSize : Message.maxUnfragmented ≤ c.transport.receiveBufferSize.toNat

theorem reachable_default (p : Period) : (p.of {}).Reachable := by
  rw [Duration.Reachable, Duration.value_lastBelow]
  cases p <;> norm_num [Period.of, Duration.ofSeconds, Duration.perSecond]

theorem reachable_of_ofEnvironment? (h : ofEnvironment? names env = some c) (p : Period) :
    (p.of c).Reachable := by
  have hperiod := period?_of_ofEnvironment? h p
  rcases period?_cases env p.key (p.of {}) with ⟨-, heq⟩ | ⟨q, x, -, -, hnear, heq⟩
  · rw [← Option.some.inj (heq.symm.trans hperiod)]
    exact reachable_default p
  · exact Duration.reachable_of_ofSeconds? hnear (heq.symm.trans hperiod)

theorem effective_of_ofEnvironment? (h : ofEnvironment? names env = some c) : c.Effective := by
  have hreachable := reachable_of_ofEnvironment? h
  simp only [ofEnvironment?, Option.bind_eq_bind, Option.bind_eq_some_iff, Option.pure_def,
    Option.some.injEq] at h
  obtain ⟨beacon, -, connection, -, rfl⟩ := h
  refine ⟨?_, ?_, ?_, hreachable, ?_⟩
  · cases hgroup : ((setting? env multicastGroupKey).bind Ipv4.ofText?).filter Ipv4.isMulticast with
    | none => exact (show (Ipv4.ofOctets 239 219 1 200).isMulticast = true by decide)
    | some a => exact (Option.filter_eq_some_iff.mp hgroup).2
  · cases setting? env addressesKey with
    | none => exact ⟨fun e he => absurd he List.not_mem_nil, List.nodup_nil⟩
    | some list => exact Endpoint.listed_addressList names list _
  · cases setting? env networkRulesKey with
    | none => exact NetworkRules.sound_builtin
    | some list => exact NetworkRules.sound_ofList list
  · cases (setting? env receiveBufferSizeKey).bind Decimal.word32? with
    | none => exact (show Message.maxUnfragmented ≤ 16384 by decide)
    | some n =>
      have hlt : max n.toNat Message.maxUnfragmented < UInt32.size :=
        max_lt n.toNat_lt (by decide)
      rw [UInt32.toNat_ofNat_of_lt' hlt]
      exact le_max_right _ _

/-! ## Reading the entries -/

theorem trim_shown (h : c.Effective) (v : Setting) : Text.trim (v.shown c) = v.shown c := by
  cases v with
  | broadcastPort | serverPort | receiveBufferSize => exact Decimal.trim_toString _
  | multicastGroup => exact Text.trim_eq_self_of_forall fun _ => Ipv4.not_blank_of_mem_text
  | addresses =>
    refine Text.trim_intercalate fun word hword => ?_
    obtain ⟨e, he, rfl⟩ := List.mem_map.mp hword
    obtain ⟨a, port, rfl⟩ := h.addresses.v4 e he
    exact Endpoint.isWord_text_v4 a port
  | autoAddresses =>
    simp only [Setting.shown]
    cases c.autoAddresses <;> decide +kernel
  | networkRules => exact Text.trim_eq_self_of_forall fun _ => NetworkRules.not_blank_of_mem_text
  | period p => exact Text.trim_eq_self_of_forall fun _ => Binary64.isBlank_of_mem_text

theorem setting?_environment (h : c.Effective) (v : Setting) :
    setting? c.environment v.key = if v.shown c = "" then none else some (v.shown c) := by
  rw [setting?, environment_key, Option.map_some, trim_shown h, Option.filter_some]
  simp

/-- A text that is read is not empty if nothing is read from the empty text. -/
theorem bind_setting?_environment {α : Type} {read? : String → Option α} {a : α}
    (h : c.Effective) (v : Setting) (hempty : read? "" = none)
    (hread : read? (v.shown c) = some a) :
    (setting? c.environment v.key).bind read? = some a := by
  have hne : v.shown c ≠ "" := by
    rintro heq
    rw [heq, hempty] at hread
    cases hread
  rw [setting?_environment h, if_neg hne, Option.bind_some, hread]

/-- A list is read, also if that of the empty text is shown. -/
theorem getD_setting?_environment {α : Type} {read : String → α} (h : c.Effective) (v : Setting) :
    ((setting? c.environment v.key).map read).getD (read "") = read (v.shown c) := by
  rw [setting?_environment h]
  split
  case isTrue heq => rw [heq, Option.map_none, Option.getD_none]
  case isFalse => rw [Option.map_some, Option.getD_some]

theorem yesNo?_shown (c : Config) :
    yesNo? (Setting.autoAddresses.shown c) = some c.autoAddresses := by
  simp only [Setting.shown]
  cases c.autoAddresses <;> decide +kernel

/-- The text of a period is never beyond the longest duration. -/
theorem period?_environment_ne_none (h : c.Effective) (p : Period) :
    period? c.environment p.key (p.of {}) ≠ none := by
  rw [ne_eq, period?_eq_none_iff]
  rintro ⟨q, ⟨s, hs, hq⟩, hlong⟩
  obtain ⟨-, hshown⟩ :=
    Option.ite_none_left_eq_some.mp ((setting?_environment h (.period p)).symm.trans hs)
  obtain rfl := Option.some.inj hshown
  obtain ⟨q', hq', hzero | hround⟩ := (p.of c).seconds.exists_denotes_text
  · rw [hq.unique hq', hzero] at hlong
    exact absurd hlong.1 (by norm_num [Duration.endless])
  · rw [hq.unique hq'] at hlong
    obtain ⟨d, hd⟩ := (h.reachable p).exists_ofSeconds?_seconds
    rw [(Duration.ofSeconds?_eq_none_iff hround.2).mpr hlong.1] at hd
    cases hd

/-- The entries of a configuration from an environment are an environment that gives a configuration
with the same settings, apart from the periods. -/
theorem environment_reloads (h : ofEnvironment? names env = some c) :
    ∃ d, ofEnvironment? names' c.environment = some d ∧
      ∀ v : Setting, (∀ p, v ≠ .period p) → v.Agree c d := by
  have heff := effective_of_ofEnvironment? h
  obtain ⟨d, hd⟩ : ∃ d, ofEnvironment? names' c.environment = some d := by
    refine Option.ne_none_iff_exists'.mp fun hnone => ?_
    obtain ⟨p, hp⟩ := ofEnvironment?_eq_none_iff.mp hnone
    exact period?_environment_ne_none heff p hp
  refine ⟨d, hd, fun v hv => ?_⟩
  simp only [ofEnvironment?, Option.bind_eq_bind, Option.bind_eq_some_iff, Option.pure_def,
    Option.some.injEq] at hd
  obtain ⟨beacon, -, connection, -, rfl⟩ := hd
  cases v with
  | broadcastPort =>
    have hread : (setting? c.environment broadcastPortKey).bind Decimal.word16? =
        some c.broadcastPort :=
      bind_setting?_environment heff .broadcastPort rfl (Decimal.word16?_toString _)
    simp only [Setting.Agree, hread, Option.getD_some]
  | serverPort =>
    have hread : (setting? c.environment serverPortKey).bind Decimal.word16? = some c.serverPort :=
      bind_setting?_environment heff .serverPort rfl (Decimal.word16?_toString _)
    simp only [Setting.Agree, hread, Option.getD_some]
  | multicastGroup =>
    have hread : (setting? c.environment multicastGroupKey).bind Ipv4.ofText? =
        some c.multicastGroup :=
      bind_setting?_environment heff .multicastGroup (by decide +kernel)
        (Ipv4.ofText?_eq_some_iff.mpr rfl)
    simp only [Setting.Agree, hread, Option.filter_some, heff.group, if_true, Option.getD_some]
  | addresses =>
    simp only [Setting.Agree]
    exact ((getD_setting?_environment heff .addresses).trans
      (heff.addresses.addressList_intercalate names' _)).symm
  | autoAddresses =>
    have hread : (setting? c.environment autoAddressesKey).bind yesNo? = some c.autoAddresses :=
      bind_setting?_environment heff .autoAddresses (by decide +kernel) (yesNo?_shown _)
    simp only [Setting.Agree, hread, Option.getD_some]
  | networkRules =>
    simp only [Setting.Agree]
    have hempty : NetworkRules.ofList "" = .builtin := by decide +kernel
    rw [← hempty]
    exact ((getD_setting?_environment heff .networkRules).trans heff.rules.ofList_text).symm
  | period p => exact absurd rfl (hv p)
  | receiveBufferSize =>
    have hread : (setting? c.environment receiveBufferSizeKey).bind Decimal.word32? =
        some c.transport.receiveBufferSize :=
      bind_setting?_environment heff .receiveBufferSize rfl (Decimal.word32?_toString _)
    simp only [Setting.Agree, hread, max_eq_left heff.bufferSize, UInt32.ofNat_toNat]

/-- An environment in which endpoints and networks are repeated and the buffer is too small. -/
def crowdedEnvironment (key : String) : Option String :=
  if key = broadcastPortKey then some " +5080 "
  else if key = addressesKey then some "10.0.0.9 10.0.0.5:7  10.0.0.9:5080"
  else if key = networkRulesKey then some "172.16/12:22, 10/8:16,nonsense,+10/16:020"
  else if key = receiveBufferSizeKey then some "100"
  else none

/-- What is left of it is set again in the same order, also where every name is that of a host. -/
theorem crowdedEnvironment_reloads :
    ∃ c d, ofEnvironment? (fun _ => []) crowdedEnvironment = some c ∧
      ofEnvironment? (fun _ => [.v4 .localhost]) c.environment = some d ∧
      d.broadcastPort = 5080 ∧
      d.addresses = [⟨.v4 (.ofOctets 10 0 0 9), 5080⟩, ⟨.v4 (.ofOctets 10 0 0 5), 7⟩] ∧
      d.networkRules = ⟨[⟨[192, 168], 16, 24⟩, ⟨[172, 16], 12, 22⟩, ⟨[10], 16, 20⟩]⟩ ∧
      d.transport.receiveBufferSize = 1440 := by
  have hc : ofEnvironment? (fun _ => []) crowdedEnvironment = some {
      broadcastPort := 5080
      addresses := [⟨.v4 (.ofOctets 10 0 0 9), 5080⟩, ⟨.v4 (.ofOctets 10 0 0 5), 7⟩]
      networkRules := ⟨[⟨[192, 168], 16, 24⟩, ⟨[172, 16], 12, 22⟩, ⟨[10], 16, 20⟩]⟩
      transport := { receiveBufferSize := 1440 } } := by
    decide +kernel
  obtain ⟨d, hd, hagree⟩ :
      ∃ d, ofEnvironment? (fun _ => [.v4 .localhost]) _ = some d ∧ _ := environment_reloads hc
  exact ⟨_, d, hc, hd, (hagree .broadcastPort (by simp)).symm, (hagree .addresses (by simp)).symm,
    (hagree .networkRules (by simp)).symm, (hagree .receiveBufferSize (by simp)).symm⟩

end Config

end PvNet
