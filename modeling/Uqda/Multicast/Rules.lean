import Uqda.Multicast.Core

/-!
# Which rule an interface gets

The documentation says that the first matching rule wins.  The code visits the rules
in an order that the runtime chooses, and it passes over rules that neither beacon nor
listen, also when such a rule is the first that matches.

An interface gets the settings of the first matching rule under every order of
iteration exactly if all enabled rules that match it agree with that rule.
-/

namespace Uqda.Multicast

open Uqda.Addressing

variable {ρ : Type}

/-! ## Settings -/

/-- What a rule says about an interface. -/
structure Settings where
  beacon : Bool
  listen : Bool
  port : UInt16
  priority : Nat
  password : Bytes
  deriving DecidableEq

/-- The settings as they are configured. -/
def Rule.settings (rule : Rule ρ) : Settings :=
  ⟨rule.beacon, rule.listen, rule.port, rule.priority.toNat, rule.password⟩

/-- The settings as they are stored, with eight bits for the priority. -/
def MulticastInterface.settings (ifcfg : MulticastInterface) : Settings :=
  ⟨ifcfg.beacon, ifcfg.listen, ifcfg.port, ifcfg.priority.toNat, ifcfg.password⟩

/-- The settings that an interface was given. -/
def InterfaceInfo.settings (info : InterfaceInfo) : Settings :=
  ⟨info.beacon, info.listen, info.port, info.priority.toNat, info.password⟩

/-- The rule is in use. -/
def Rule.Enabled (rule : Rule ρ) : Prop :=
  rule.beacon = true ∨ rule.listen = true

instance (rule : Rule ρ) : Decidable rule.Enabled :=
  inferInstanceAs (Decidable (_ ∨ _))

/-- First match wins: the settings of the first rule that matches, and none if that
rule is not in use. -/
def firstMatch (matchString : ρ → String → Bool) (rules : List (Rule ρ)) (name : String) :
    Option Settings :=
  match rules.find? fun rule => matchString rule.regex name with
  | some rule => if rule.Enabled then some rule.settings else none
  | none => none

/-- Every enabled rule that matches the name is stored with the settings of the first
rule that matches. -/
def Agreed (matchString : ρ → String → Bool) (rules : List (Rule ρ)) (name : String) : Prop :=
  ∀ rule ∈ rules, rule.Enabled → matchString rule.regex name = true →
    ∀ first, (rules.find? fun rule => matchString rule.regex name) = some first →
      (rule.option 0).settings = first.settings

/-! ## The stored rules -/

theorem mem_applyOption_iff {interfaces : List MulticastInterface}
    {opt other : MulticastInterface} :
    other ∈ applyOption interfaces opt ↔ other ∈ interfaces ∨ other = opt := by
  unfold applyOption
  split
  · rename_i present
    constructor
    · exact Or.inl
    · rintro (old | rfl)
      · exact old
      · exact present
  · simp

theorem mem_foldl_applyOption_iff {opts interfaces : List MulticastInterface}
    {other : MulticastInterface} :
    other ∈ opts.foldl applyOption interfaces ↔ other ∈ interfaces ∨ other ∈ opts := by
  induction opts generalizing interfaces with
  | nil => simp
  | cons opt opts ih =>
      rw [List.foldl_cons, ih, mem_applyOption_iff, List.mem_cons, or_assoc]

/-- The stored options are those of the rules. -/
theorem mem_configured_iff {rules : List (Rule ρ)} {ifcfg : MulticastInterface} :
    ifcfg ∈ configured rules ↔
      ∃ pointer, ∃ rule : Rule ρ, rules[pointer]? = some rule ∧ rule.option pointer = ifcfg := by
  rw [configured, mem_foldl_applyOption_iff, options, List.mem_map]
  simp only [List.not_mem_nil, false_or, Prod.exists, List.mem_zipIdx_iff_getElem?]
  constructor
  · rintro ⟨rule, pointer, found, same⟩
    exact ⟨pointer, rule, found, same⟩
  · rintro ⟨pointer, rule, found, same⟩
    exact ⟨rule, pointer, found, same⟩

/-! ## Choosing a rule -/

/-- The environment of a node with the given rules. -/
def environment (matchString : ρ → String → Bool) (blake2b : Bytes → Bytes → Bytes)
    (publicKey : PublicKey) (rules : List (Rule ρ)) : Environment ρ :=
  ⟨matchString, rules.map Rule.regex, blake2b, publicKey⟩

/-- An option that passes all tests of the inner loop. -/
structure Environment.Fits (env : Environment ρ) (name : String) (ifcfg : MulticastInterface) :
    Prop where
  enabled : ifcfg.beacon = true ∨ ifcfg.listen = true
  named : env.matches ifcfg.regex name = true
  hashed : ifcfg.password.length ≤ 64 ∧ env.publicKey.length = publicKeySize

instance (env : Environment ρ) (name : String) (ifcfg : MulticastInterface) :
    Decidable (env.Fits name ifcfg) :=
  decidable_of_iff ((ifcfg.beacon = true ∨ ifcfg.listen = true) ∧
      env.matches ifcfg.regex name = true ∧
      ifcfg.password.length ≤ 64 ∧ env.publicKey.length = publicKeySize)
    ⟨fun all => ⟨all.1, all.2.1, all.2.2⟩, fun fits => ⟨fits.enabled, fits.named, fits.hashed⟩⟩

/-- The inner loop takes the first option that fits. -/
theorem Environment.choose_settings (env : Environment ρ) (iface : Iface)
    (order : List MulticastInterface) :
    (env.choose iface order).map InterfaceInfo.settings =
      (order.find? fun ifcfg => env.Fits iface.name ifcfg).map MulticastInterface.settings := by
  induction order with
  | nil => rfl
  | cons ifcfg order ih =>
      by_cases fits : env.Fits iface.name ifcfg
      · have passes := fits
        obtain ⟨enabled, named, short, size⟩ := passes
        have used : (!ifcfg.beacon && !ifcfg.listen) = false := by
          rcases enabled with beacon | listen
          · simp [beacon]
          · simp [listen]
        simp [Environment.choose, used, named, Nat.not_lt_of_le short, size, fits,
          InterfaceInfo.settings, MulticastInterface.settings]
      · have skipped : env.choose iface (ifcfg :: order) = env.choose iface order := by
          simp only [Environment.choose]
          split_ifs with unused unnamed long size
          · rfl
          · rfl
          · rfl
          · rfl
          · refine absurd ⟨?_, ?_, Nat.le_of_not_lt long, not_ne_iff.mp size⟩ fits
            · by_contra neither
              simp_all
            · simpa using unnamed
        rw [skipped, ih, List.find?_cons_of_neg (by simpa using fits)]

/-! ## All interfaces -/

theorem Environment.visit_of_ne (env : Environment ρ)
    (interfaces : String → Option InterfaceInfo) {iface : Iface} (order : List MulticastInterface)
    {name : String} (other : ¬ (iface.usable = true ∧ iface.name = name)) :
    env.visit interfaces iface order name = interfaces name := by
  unfold Environment.visit
  split
  · rename_i usable
    have different : name ≠ iface.name := fun same => other ⟨usable, same.symm⟩
    cases env.choose iface order with
    | none => rfl
    | some info => exact Function.update_of_ne different ..
  · rfl

theorem Environment.visit_self (env : Environment ρ)
    (interfaces : String → Option InterfaceInfo) {iface : Iface} (order : List MulticastInterface)
    (usable : iface.usable = true) :
    env.visit interfaces iface order iface.name =
      (env.choose iface order).or (interfaces iface.name) := by
  rw [Environment.visit, if_pos usable]
  cases env.choose iface order with
  | none => rfl
  | some info => simp

/-- If every visit gives an interface the same settings, it has them as soon as it
has been visited. -/
theorem Environment.foldl_visit_settings {env : Environment ρ} {name : String}
    {value : Option Settings} {allifaces : List (Iface × List MulticastInterface)}
    {interfaces : String → Option InterfaceInfo}
    (same : ∀ visited ∈ allifaces, visited.1.usable = true → visited.1.name = name →
      (env.choose visited.1 visited.2).map InterfaceInfo.settings = value)
    (given : (interfaces name).map InterfaceInfo.settings = value ∨
      interfaces name = none ∧
        ∃ visited ∈ allifaces, visited.1.usable = true ∧ visited.1.name = name) :
    ((allifaces.foldl (fun interfaces visited => env.visit interfaces visited.1 visited.2)
      interfaces) name).map InterfaceInfo.settings = value := by
  induction allifaces generalizing interfaces with
  | nil =>
      rcases given with settled | ⟨-, visited, member, -⟩
      · exact settled
      · cases member
  | cons visited allifaces ih =>
      obtain ⟨first, later⟩ := List.forall_mem_cons.mp same
      rw [List.foldl_cons]
      refine ih later ?_
      by_cases here : visited.1.usable = true ∧ visited.1.name = name
      · obtain ⟨usable, rfl⟩ := here
        have chosen := first usable rfl
        rw [env.visit_self interfaces visited.2 usable]
        cases found : env.choose visited.1 visited.2 with
        | some info =>
            rw [found] at chosen
            exact Or.inl chosen
        | none =>
            rw [found] at chosen
            rcases given with settled | ⟨absent, -⟩
            · exact Or.inl settled
            · exact Or.inl (by rw [absent]; exact chosen)
      · rw [env.visit_of_ne interfaces visited.2 here]
        refine given.imp_right ?_
        rintro ⟨absent, other, member, usable, named⟩
        rcases List.mem_cons.mp member with rfl | rest
        · exact absurd ⟨usable, named⟩ here
        · exact ⟨absent, other, rest, usable, named⟩

theorem Environment.getAllowedInterfaces_settings {env : Environment ρ} {name : String}
    {value : Option Settings} {allifaces : List (Iface × List MulticastInterface)}
    (same : ∀ visited ∈ allifaces, visited.1.usable = true → visited.1.name = name →
      (env.choose visited.1 visited.2).map InterfaceInfo.settings = value)
    (present : ∃ visited ∈ allifaces, visited.1.usable = true ∧ visited.1.name = name) :
    (env.getAllowedInterfaces allifaces name).map InterfaceInfo.settings = value :=
  Environment.foldl_visit_settings same (Or.inr ⟨rfl, present⟩)

/-! ## First match -/

/-- A visit of every interface, each with its own order of the stored rules. -/
def Orders (rules : List (Rule ρ)) (hardware : List Iface)
    (allifaces : List (Iface × List MulticastInterface)) : Prop :=
  allifaces.map Prod.fst = hardware ∧ ∀ visited ∈ allifaces, visited.2.Perm (configured rules)

section Wins

variable {matchString : ρ → String → Bool} {blake2b : Bytes → Bytes → Bytes}
  {publicKey : PublicKey} {rules : List (Rule ρ)} {name : String}

/-- The options that fit an interface are those of the enabled rules that match. -/
theorem fits_option_iff (size : publicKey.length = publicKeySize)
    (passwords : ∀ rule ∈ rules, rule.password.length ≤ 64) {pointer : Nat} {rule : Rule ρ}
    (found : rules[pointer]? = some rule) :
    (environment matchString blake2b publicKey rules).Fits name (rule.option pointer) ↔
      rule.Enabled ∧ matchString rule.regex name = true := by
  have named : (environment matchString blake2b publicKey rules).matches pointer name =
      matchString rule.regex name := by
    simp [Environment.matches, environment, found]
  constructor
  · exact fun fits => ⟨fits.enabled, named ▸ fits.named⟩
  · rintro ⟨enabled, matched⟩
    exact ⟨enabled, named.trans matched, passwords rule (List.mem_of_getElem? found), size⟩

/-- The option of a rule is visited in every order. -/
theorem mem_order_iff {order : List MulticastInterface} (arranged : order.Perm (configured rules))
    {ifcfg : MulticastInterface} :
    ifcfg ∈ order ↔
      ∃ pointer, ∃ rule : Rule ρ, rules[pointer]? = some rule ∧ rule.option pointer = ifcfg := by
  rw [arranged.mem_iff, mem_configured_iff]

/-- If the matching rules agree, every order of iteration chooses the settings of the
first one. -/
theorem choose_of_agreed (size : publicKey.length = publicKeySize)
    (passwords : ∀ rule ∈ rules, rule.password.length ≤ 64) (agreed : Agreed matchString rules name)
    {iface : Iface} (named : iface.name = name) {order : List MulticastInterface}
    (arranged : order.Perm (configured rules)) :
    ((environment matchString blake2b publicKey rules).choose iface order).map
      InterfaceInfo.settings = firstMatch matchString rules name := by
  rw [Environment.choose_settings, named]
  cases chosen : order.find? fun ifcfg =>
      (environment matchString blake2b publicKey rules).Fits name ifcfg with
  | none =>
      -- no enabled rule matches, so the first rule that matches is not in use
      rw [firstMatch]
      cases found : rules.find? fun rule => matchString rule.regex name with
      | none => rfl
      | some first =>
          obtain ⟨pointer, entry⟩ := List.getElem?_of_mem (List.mem_of_find?_eq_some found)
          have matched := List.find?_some found
          have unfit := List.find?_eq_none.mp chosen (first.option pointer)
            ((mem_order_iff arranged).mpr ⟨pointer, first, entry, rfl⟩)
          rw [decide_eq_true_eq, fits_option_iff size passwords entry] at unfit
          have unused : ¬ first.Enabled := fun enabled => unfit ⟨enabled, matched⟩
          simp [unused]
  | some ifcfg =>
      obtain ⟨pointer, rule, entry, rfl⟩ :=
        (mem_order_iff arranged).mp (List.mem_of_find?_eq_some chosen)
      have fits := List.find?_some chosen
      rw [decide_eq_true_eq, fits_option_iff size passwords entry] at fits
      obtain ⟨enabled, matched⟩ := fits
      have member := List.mem_of_getElem? entry
      obtain ⟨first, found⟩ : ∃ first,
          (rules.find? fun rule => matchString rule.regex name) = some first := by
        rw [← Option.isSome_iff_exists, List.find?_isSome]
        exact ⟨rule, member, matched⟩
      have same := agreed rule member enabled matched first found
      have used : first.Enabled := by
        have beacon : rule.beacon = first.beacon := congrArg Settings.beacon same
        have listen : rule.listen = first.listen := congrArg Settings.listen same
        rwa [Rule.Enabled, ← beacon, ← listen]
      rw [firstMatch, found]
      simp only [used, if_true, ← same]
      rfl

/-- Every enabled rule that matches is chosen in some order of iteration. -/
theorem exists_order_choose (blake2b : Bytes → Bytes → Bytes)
    (size : publicKey.length = publicKeySize)
    (passwords : ∀ rule ∈ rules, rule.password.length ≤ 64) {rule : Rule ρ} (member : rule ∈ rules)
    (enabled : rule.Enabled) (matched : matchString rule.regex name = true) :
    ∃ order, order.Perm (configured rules) ∧ ∀ iface : Iface, iface.name = name →
      ((environment matchString blake2b publicKey rules).choose iface order).map
        InterfaceInfo.settings = some (rule.option 0).settings := by
  obtain ⟨pointer, entry⟩ := List.getElem?_of_mem member
  have stored : rule.option pointer ∈ configured rules :=
    mem_configured_iff.mpr ⟨pointer, rule, entry, rfl⟩
  refine ⟨rule.option pointer :: (configured rules).erase (rule.option pointer),
    (List.perm_cons_erase stored).symm, ?_⟩
  rintro iface rfl
  rw [Environment.choose_settings, List.find?_cons_of_pos]
  · rfl
  · rw [decide_eq_true_eq, fits_option_iff size passwords entry]
    exact ⟨enabled, matched⟩

end Wins

/-- An interface gets the settings of the first rule that matches its name, whatever
orders the runtime chooses, exactly if all enabled rules that match the name are
stored with those settings. -/
theorem firstMatch_wins_iff (matchString : ρ → String → Bool)
    (blake2b : Bytes → Bytes → Bytes) (publicKey : PublicKey) (rules : List (Rule ρ))
    (hardware : List Iface) (name : String) (size : publicKey.length = publicKeySize)
    (passwords : ∀ rule ∈ rules, rule.password.length ≤ 64)
    (present : ∃ iface ∈ hardware, iface.usable = true ∧ iface.name = name) :
    (∀ allifaces, Orders rules hardware allifaces →
      ((environment matchString blake2b publicKey rules).getAllowedInterfaces allifaces
        name).map InterfaceInfo.settings = firstMatch matchString rules name) ↔
      Agreed matchString rules name := by
  constructor
  · intro wins rule member enabled matched first found
    obtain ⟨order, arranged, chosen⟩ :=
      exists_order_choose blake2b size passwords member enabled matched
    have given := wins (hardware.map fun iface => (iface, order))
      ⟨by simp [Function.comp_def], by simp [arranged]⟩
    rw [@Environment.getAllowedInterfaces_settings _ _ name (some (rule.option 0).settings),
      firstMatch, found] at given
    · simp only at given
      split at given
      · exact Option.some.inj given
      · cases given
    · intro visited visit _ named
      obtain ⟨iface, -, rfl⟩ := List.mem_map.mp visit
      exact chosen iface named
    · obtain ⟨iface, listed, usable, named⟩ := present
      exact ⟨(iface, order), List.mem_map_of_mem listed, usable, named⟩
  · intro agreed allifaces ⟨listed, arranged⟩
    refine Environment.getAllowedInterfaces_settings ?_ ?_
    · intro visited member usable named
      exact choose_of_agreed size passwords agreed named (arranged visited member)
    · obtain ⟨iface, member, usable, named⟩ := present
      rw [← listed] at member
      obtain ⟨visited, visit, rfl⟩ := List.mem_map.mp member
      exact ⟨visited, visit, usable, named⟩

/-! ## Overlapping rules -/

/-- Expressions that list the names they match. -/
def matchListed (names : List String) (name : String) : Bool :=
  names.contains name

/-- A rule for one name. -/
def wired : Rule (List String) :=
  ⟨["eth0"], true, true, 1, 0, []⟩

/-- A rule for two names, one of which has its own rule. -/
def everywhere : Rule (List String) :=
  ⟨["eth0", "wlan0"], true, true, 2, 0, []⟩

/-- A rule that keeps one name out of use. -/
def unused : Rule (List String) :=
  ⟨["eth0"], false, false, 0, 0, []⟩

/-- A wired interface that is up. -/
def eth0 : Iface :=
  ⟨"eth0", ⟨true, true, true, false⟩⟩

/-- A wireless interface that is up. -/
def wlan0 : Iface :=
  ⟨"wlan0", ⟨true, true, true, false⟩⟩

/-- On an interface that only one rule matches, that rule wins. -/
theorem everywhere_wins_on_wlan0 :
    Agreed matchListed [wired, everywhere] "wlan0" ∧
      ∀ allifaces, Orders [wired, everywhere] [eth0, wlan0] allifaces →
        ((environment matchListed (fun _ message => message) (List.replicate 32 0)
          [wired, everywhere]).getAllowedInterfaces allifaces "wlan0").map
            InterfaceInfo.settings = some everywhere.settings := by
  have agreed : Agreed matchListed [wired, everywhere] "wlan0" := by
    intro rule member enabled matched first found
    have chosen : [wired, everywhere].find? (fun rule => matchListed rule.regex "wlan0") =
        some everywhere := by decide
    rw [chosen, Option.some.injEq] at found
    subst found
    rcases List.mem_pair.mp member with rfl | rfl
    · exact absurd matched (by decide)
    · rfl
  refine ⟨agreed, ?_⟩
  exact (firstMatch_wins_iff matchListed (fun _ message => message) (List.replicate 32 0)
    [wired, everywhere] [eth0, wlan0] "wlan0" (by decide) (by decide) (by decide)).mpr agreed

/-- If the runtime visits the second rule first, the second rule wins, and a first
rule that is not in use is passed over even in the order of the configuration. -/
theorem later_rule_wins :
    (∃ allifaces, Orders [wired, everywhere] [eth0] allifaces ∧
      ((environment matchListed (fun _ message => message) (List.replicate 32 0)
        [wired, everywhere]).getAllowedInterfaces allifaces "eth0").map
          InterfaceInfo.settings = some everywhere.settings ∧
      firstMatch matchListed [wired, everywhere] "eth0" = some wired.settings ∧
      everywhere.settings ≠ wired.settings) ∧
    ∃ allifaces, Orders [unused, everywhere] [eth0] allifaces ∧
      ((environment matchListed (fun _ message => message) (List.replicate 32 0)
        [unused, everywhere]).getAllowedInterfaces allifaces "eth0").map
          InterfaceInfo.settings = some everywhere.settings ∧
      firstMatch matchListed [unused, everywhere] "eth0" = none := by
  refine ⟨⟨[(eth0, [everywhere.option 1, wired.option 0])], ⟨rfl, ?_⟩, by decide, by decide,
    by decide⟩, ⟨[(eth0, [unused.option 0, everywhere.option 1])], ⟨rfl, ?_⟩, by decide,
    by decide⟩⟩
  · intro visited member
    rw [List.mem_singleton.mp member]
    decide
  · intro visited member
    rw [List.mem_singleton.mp member]
    decide

end Uqda.Multicast
