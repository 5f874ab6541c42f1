import SilverPow.Base.Log
import SilverPow.Base.Run
import SilverPow.Base.Table
import SilverPow.Base.Window

/-!
# Connections of one address

`src/stratum.rs:48–54`, `153–214`: the server counts the connection attempts of an address
in windows of a second, and blocks an address that makes too many. Instants and durations
are nanoseconds of the monotonic clock, which is read once for the block and once more for
the count.
-/

namespace SilverPow.Server

open SilverPow.Base

/-- `std::net::IpAddr`. -/
inductive IpAddr where
  | v4 (bits : BitVec 32)
  | v6 (bits : BitVec 128)
  deriving DecidableEq

/-- `Duration::from_secs(1)`. -/
def second : Nat := 1000000000

/-- `IpRateLimit`, `src/stratum.rs:50–54`. -/
structure IpRateLimit where
  connectionCount : U32
  lastReset : Nat
  blockedUntil : Option Nat
  deriving DecidableEq

/-- The settings of the server for one address. -/
structure IpConfig where
  maxConnectionsPerIp : U32
  ipBlockDuration : Nat

/-- `is_ip_blocked`, `src/stratum.rs:153–165`. -/
def isIpBlocked (limits : Table IpAddr IpRateLimit) (ip : IpAddr) (now : Nat) : Bool :=
  match limits.lookup ip with
  | some limit =>
    match limit.blockedUntil with
    | some blockedUntil => decide (now < blockedUntil)
    | none => false
  | none => false

/-- `check_ip_rate_limit`, `src/stratum.rs:168–196`. -/
def checkIpRateLimit (config : IpConfig) (limits : Table IpAddr IpRateLimit) (ip : IpAddr)
    (now : Nat) : Bool × Table IpAddr IpRateLimit :=
  let (limit, limits) := limits.entryOrInsert ip ⟨0, now, none⟩
  let limit :=
    if second ≤ now - limit.lastReset then { limit with connectionCount := 0, lastReset := now }
    else limit
  let limit := { limit with connectionCount := limit.connectionCount + 1 }
  if config.maxConnectionsPerIp < limit.connectionCount then
    (false, limits.insert ip { limit with blockedUntil := some (now + config.ipBlockDuration) })
  else (true, limits.insert ip limit)

/-- What the server decides about an attempt. -/
inductive Decision where
  | blocked
  | exceeded
  | admitted
  deriving DecidableEq

/-- An attempt: the clock for the block and the clock for the count. -/
structure Attempt where
  ip : IpAddr
  checked : Nat
  now : Nat

/-- The checks of one address in `accept_connections`, `src/stratum.rs:204–214`. -/
def checkAttempt (config : IpConfig) (limits : Table IpAddr IpRateLimit) (a : Attempt) :
    Decision × Table IpAddr IpRateLimit :=
  if isIpBlocked limits a.ip a.checked then (.blocked, limits)
  else
    let (within, limits) := checkIpRateLimit config limits a.ip a.now
    (if within then .admitted else .exceeded, limits)

/-! ### One address alone -/

namespace IpRateLimit

/-- The address is blocked. -/
def BlockedAt (limit : Option IpRateLimit) (now : Nat) : Prop :=
  ∃ l blockedUntil, limit = some l ∧ l.blockedUntil = some blockedUntil ∧ now < blockedUntil

/-- The limit in the window of an attempt, before the attempt is counted. -/
def window (limit : Option IpRateLimit) (now : Nat) : IpRateLimit :=
  let limit := limit.getD ⟨0, now, none⟩
  if second ≤ now - limit.lastReset then { limit with connectionCount := 0, lastReset := now }
  else limit

/-- The limit with the attempt counted. -/
def counted (limit : Option IpRateLimit) (now : Nat) : IpRateLimit :=
  { window limit now with connectionCount := (window limit now).connectionCount + 1 }

/-- What an attempt with a decision does to the limit of its address. -/
inductive Admits (config : IpConfig) (limit : Option IpRateLimit) (checked now : Nat) :
    Decision → Option IpRateLimit → Prop
  | blocked (h : BlockedAt limit checked) : Admits config limit checked now .blocked limit
  | exceeded (h : ¬BlockedAt limit checked)
      (hc : config.maxConnectionsPerIp < (counted limit now).connectionCount) :
      Admits config limit checked now .exceeded
        (some { counted limit now with blockedUntil := some (now + config.ipBlockDuration) })
  | admitted (h : ¬BlockedAt limit checked)
      (hc : (counted limit now).connectionCount ≤ config.maxConnectionsPerIp) :
      Admits config limit checked now .admitted (some (counted limit now))

end IpRateLimit

open IpRateLimit

theorem isIpBlocked_iff {limits : Table IpAddr IpRateLimit} {ip : IpAddr} {now : Nat} :
    isIpBlocked limits ip now = true ↔ BlockedAt (limits.lookup ip) now := by
  unfold isIpBlocked BlockedAt
  cases limits.lookup ip with
  | none => simp
  | some limit => cases h : limit.blockedUntil <;> simp [h]

/-- The check stores the counted limit of the address, and a block if it is exceeded. -/
theorem checkIpRateLimit_eq (config : IpConfig) (limits : Table IpAddr IpRateLimit) (ip : IpAddr)
    (now : Nat) :
    (checkIpRateLimit config limits ip now).1 =
        decide ((counted (limits.lookup ip) now).connectionCount ≤ config.maxConnectionsPerIp) ∧
      ∀ a, (checkIpRateLimit config limits ip now).2.lookup a =
        if a = ip then
          some (if config.maxConnectionsPerIp < (counted (limits.lookup ip) now).connectionCount
            then { counted (limits.lookup ip) now with
              blockedUntil := some (now + config.ipBlockDuration) }
            else counted (limits.lookup ip) now)
        else limits.lookup a := by
  have hcheck : checkIpRateLimit config limits ip now =
      let limit := counted (limits.lookup ip) now
      let limits := (limits.entryOrInsert ip ⟨0, now, none⟩).2
      if config.maxConnectionsPerIp < limit.connectionCount then
        (false, limits.insert ip { limit with blockedUntil := some (now + config.ipBlockDuration) })
      else (true, limits.insert ip limit) := by
    unfold counted window
    rw [← Table.entryOrInsert_fst]
    rfl
  have hl : ∀ v a, ((limits.entryOrInsert ip ⟨0, now, none⟩).2.insert ip v).lookup a =
      if a = ip then some v else limits.lookup a := by
    intro v a
    split
    · next h => rw [h, Finmap.lookup_insert]
    · next h => rw [Finmap.lookup_insert_of_ne _ h, Table.lookup_entryOrInsert_of_ne _ h]
  rw [hcheck]
  dsimp only
  split
  · next h => exact ⟨(decide_eq_false (BitVec.not_le.mpr h)).symm, hl _⟩
  · next h => exact ⟨(decide_eq_true (BitVec.not_lt.mp h)).symm, hl _⟩

/-- An attempt changes the limit of its own address, as the decision says, and no other. -/
theorem admits_checkAttempt (config : IpConfig) (limits : Table IpAddr IpRateLimit) (a : Attempt) :
    Admits config (limits.lookup a.ip) a.checked a.now (checkAttempt config limits a).1
        ((checkAttempt config limits a).2.lookup a.ip) ∧
      ∀ ip, ip ≠ a.ip → (checkAttempt config limits a).2.lookup ip = limits.lookup ip := by
  obtain ⟨hwithin, hl⟩ := checkIpRateLimit_eq config limits a.ip a.now
  unfold checkAttempt
  split
  · next h => exact ⟨.blocked (isIpBlocked_iff.mp h), fun _ _ ↦ rfl⟩
  · next h =>
    rw [isIpBlocked_iff] at h
    dsimp only
    rw [hwithin, hl, if_pos rfl]
    constructor
    · by_cases hc : (counted (limits.lookup a.ip) a.now).connectionCount ≤
        config.maxConnectionsPerIp
      · rw [decide_eq_true hc, if_pos rfl, if_neg (BitVec.not_lt.mpr hc)]
        exact .admitted h hc
      · rw [decide_eq_false hc, if_neg Bool.false_ne_true, if_pos (BitVec.not_le.mp hc)]
        exact .exceeded h (BitVec.not_le.mp hc)
    · intro ip hip
      rw [hl, if_neg hip]

/-- The decision and the new limit follow from the old limit and the clock. -/
theorem IpRateLimit.Admits.unique {config : IpConfig} {limit l l' : Option IpRateLimit}
    {checked now : Nat} {d d' : Decision} (h : Admits config limit checked now d l)
    (h' : Admits config limit checked now d' l') : d = d' ∧ l = l' := by
  cases h with
  | blocked hb =>
    cases h' with
    | blocked _ => exact ⟨rfl, rfl⟩
    | exceeded hn _ => exact absurd hb hn
    | admitted hn _ => exact absurd hb hn
  | exceeded hn hc =>
    cases h' with
    | blocked hb => exact absurd hb hn
    | exceeded _ _ => exact ⟨rfl, rfl⟩
    | admitted _ hc' => exact absurd hc (BitVec.not_lt.mpr hc')
  | admitted hn hc =>
    cases h' with
    | blocked hb => exact absurd hb hn
    | exceeded _ hc' => exact absurd hc' (BitVec.not_lt.mpr hc)
    | admitted _ _ => exact ⟨rfl, rfl⟩

/-! ### Runs -/

/-- An attempt with the decision about it. -/
structure Decided extends Attempt where
  decision : Decision

/-- The limits of all addresses before and after an attempt. -/
def AdmitStep (config : IpConfig) (limits : Table IpAddr IpRateLimit) (d : Decided)
    (limits' : Table IpAddr IpRateLimit) : Prop :=
  checkAttempt config limits d.toAttempt = (d.decision, limits')

/-- The limits that a server reaches, with the attempts on the way. -/
abbrev AdmitRun (config : IpConfig) : List Decided → Table IpAddr IpRateLimit → Prop :=
  Run (AdmitStep config) ∅

/-- The limit of one address before and after an attempt of it. -/
def AddressStep (config : IpConfig) (limit : Option IpRateLimit) (d : Decided)
    (limit' : Option IpRateLimit) : Prop :=
  Admits config limit d.checked d.now d.decision limit'

/-- The attempts of an address. -/
def attemptsOf (ip : IpAddr) (es : List Decided) : List Decided := es.filter (·.ip = ip)

/-- The clock does not run backwards. -/
def Timed (es : List Decided) : Prop :=
  (∀ d ∈ es, d.checked ≤ d.now) ∧ es.Pairwise fun d d' ↦ d.now ≤ d'.checked

/-- The times of the admitted attempts. -/
def admittedTimes (es : List Decided) : List Nat :=
  es.filterMap fun d ↦ if d.decision = .admitted then some d.now else none

section Runs

variable {config : IpConfig} {es : List Decided} {d : Decided}

theorem timed_concat :
    Timed (es ++ [d]) ↔ Timed es ∧ d.checked ≤ d.now ∧ ∀ d' ∈ es, d'.now ≤ d.checked := by
  simp only [Timed, List.forall_mem_append, List.pairwise_append, List.mem_singleton, forall_eq,
    List.pairwise_singleton, true_and]
  exact and_and_and_comm

/-- Some of the attempts. -/
theorem Timed.filter (h : Timed es) (p : Decided → Bool) : Timed (es.filter p) :=
  ⟨fun d hd ↦ h.1 d (List.mem_of_mem_filter hd), h.2.sublist List.filter_sublist⟩

theorem admittedTimes_concat : admittedTimes (es ++ [d]) =
    if d.decision = .admitted then admittedTimes es ++ [d.now] else admittedTimes es := by
  simp only [admittedTimes, List.filterMap_append]
  split
  · next h => simp [h]
  · next h => simp [h]

theorem admittedTimes_concat_of_ne (h : d.decision ≠ .admitted) :
    admittedTimes (es ++ [d]) = admittedTimes es := by
  rw [admittedTimes_concat, if_neg h]

/-- What the attempts over the limit meet is met after one that is not over it. -/
theorem forall_exceeded_concat {P : Decided → Prop} (hd : d.decision ≠ .exceeded)
    (h : ∀ d' ∈ es, d'.decision = .exceeded → P d') :
    ∀ d' ∈ es ++ [d], d'.decision = .exceeded → P d' := by
  intro d' hd' hexceeded
  rw [List.mem_append, List.mem_singleton] at hd'
  obtain hold | rfl := hd'
  · exact h d' hold hexceeded
  · exact absurd hexceeded hd

/-- An attempt with its decision extends a run. -/
theorem admitRun_concat {limits : Table IpAddr IpRateLimit} (h : AdmitRun config es limits)
    (hd : (checkAttempt config limits d.toAttempt).1 = d.decision) :
    AdmitRun config (es ++ [d]) (checkAttempt config limits d.toAttempt).2 :=
  .snoc h (Prod.ext hd rfl)

/-- Each address has a run of its own, of its attempts alone. -/
theorem address_of_run {limits : Table IpAddr IpRateLimit} (h : AdmitRun config es limits)
    (ip : IpAddr) :
    Run (AddressStep config) none (attemptsOf ip es) (limits.lookup ip) := by
  induction h with
  | nil => exact .nil
  | @snoc es limits limits' d _ hs ih =>
    obtain ⟨hown, hother⟩ := admits_checkAttempt config limits d.toAttempt
    rw [show checkAttempt config limits d.toAttempt = (d.decision, limits') from hs] at hown hother
    rw [attemptsOf, List.filter_append]
    by_cases hip : d.ip = ip
    · subst hip
      rw [List.filter_singleton, decide_eq_true rfl]
      exact .snoc ih hown
    · rw [List.filter_singleton, decide_eq_false hip, hother ip (Ne.symm hip)]
      exact (List.append_nil _).symm ▸ ih

end Runs

/-! ### What the limit of an address knows -/

/-- The limit of an address against its attempts: the admitted ones lie in windows, those of
the current window are counted, and what was refused blocks for long enough. -/
structure Sound (config : IpConfig) (es : List Decided) (l : IpRateLimit) : Prop where
  tiled : Tiled second config.maxConnectionsPerIp.toNat l.lastReset (admittedTimes es)
  count : countIn (admittedTimes es) l.lastReset (l.lastReset + second) ≤ l.connectionCount.toNat
  reset : ∃ d ∈ es, d.now = l.lastReset
  block : ∀ d ∈ es, d.decision = .exceeded →
    ∃ blockedUntil, l.blockedUntil = some blockedUntil ∧
      d.now + config.ipBlockDuration ≤ blockedUntil
  room : l.connectionCount.toNat ≤ config.maxConnectionsPerIp.toNat ∨
    ∃ blockedUntil, l.blockedUntil = some blockedUntil ∧ l.lastReset + second ≤ blockedUntil

/-- The same before the first attempt. -/
def SoundAt (config : IpConfig) (es : List Decided) : Option IpRateLimit → Prop
  | none => es = []
  | some l => Sound config es l

/-- The window of an attempt that is not blocked: there is room to count it. -/
structure Open (config : IpConfig) (es : List Decided) (now : Nat) (w : IpRateLimit) : Prop where
  tiled : Tiled second config.maxConnectionsPerIp.toNat w.lastReset (admittedTimes es)
  count : countIn (admittedTimes es) w.lastReset (w.lastReset + second) ≤ w.connectionCount.toNat
  reset : w.lastReset = now ∨ ∃ d ∈ es, d.now = w.lastReset
  block : ∀ d ∈ es, d.decision = .exceeded →
    ∃ blockedUntil, w.blockedUntil = some blockedUntil ∧
      d.now + config.ipBlockDuration ≤ blockedUntil
  room : w.connectionCount.toNat ≤ config.maxConnectionsPerIp.toNat
  started : w.lastReset ≤ now
  running : now < w.lastReset + second

section Invariant

variable {config : IpConfig} {es : List Decided} {limit : Option IpRateLimit} {checked now : Nat}

/-- The window of an attempt that is not blocked. -/
theorem open_window (h : SoundAt config es limit) (hb : ¬BlockedAt limit checked)
    (hn : checked ≤ now) (ht : ∀ d ∈ es, d.now ≤ checked) :
    Open config es now (window limit now) := by
  have hsec : 0 < second := by decide
  cases limit with
  | none =>
    cases (h : es = [])
    have hw : window none now = ⟨0, now, none⟩ := if_neg (by simp [second])
    rw [hw]
    exact ⟨.nil, Nat.zero_le _, .inl rfl, by simp, Nat.zero_le _, Nat.le_refl _, by simp [second]⟩
  | some l =>
    have h : Sound config es l := h
    have hpast : l.lastReset ≤ now := by
      obtain ⟨d, hd, hr⟩ := h.reset
      rw [← hr]
      exact (ht d hd).trans hn
    by_cases hr : second ≤ now - l.lastReset
    · have hw : window (some l) now = { l with connectionCount := 0, lastReset := now } := if_pos hr
      have htiled := h.tiled.restart (x := now) (by omega)
      rw [hw]
      refine ⟨htiled, ?_, .inl rfl, h.block, Nat.zero_le _, Nat.le_refl _,
        Nat.lt_add_of_pos_right hsec⟩
      change countIn (admittedTimes es) now (now + second) ≤ _
      rw [countIn_eq_zero]
      · exact Nat.zero_le _
      · intro t ht
        have := h.tiled.ended t ht
        omega
    · have hw : window (some l) now = l := if_neg hr
      rw [hw]
      refine ⟨h.tiled, h.count, .inr h.reset, h.block, ?_, hpast, by omega⟩
      obtain hroom | ⟨blockedUntil, hu, hlong⟩ := h.room
      · exact hroom
      · -- A full window is blocked until it has passed.
        refine absurd ⟨l, blockedUntil, rfl, hu, ?_⟩ hb
        omega

/-- An attempt that is not blocked is counted without overflow. -/
theorem Open.toNat_counted (hmax : config.maxConnectionsPerIp.toNat < 2 ^ 32 - 1)
    (h : Open config es now (window limit now)) :
    (counted limit now).connectionCount.toNat =
      (window limit now).connectionCount.toNat + 1 := by
  have := h.room
  rw [counted, BitVec.toNat_add, Nat.mod_eq_of_lt]
  · rfl
  · change (window limit now).connectionCount.toNat + 1 < 2 ^ 32
    omega

variable {d : Decided} {limit' : Option IpRateLimit}

/-- The window of an attempt started with that attempt or with an earlier one. -/
theorem Open.reset_concat {w : IpRateLimit} (h : Open config es d.now w) :
    ∃ d' ∈ es ++ [d], d'.now = w.lastReset := by
  obtain hr | ⟨r, hr, hreset⟩ := h.reset
  · exact ⟨d, List.mem_append_right _ (List.mem_singleton_self d), hr.symm⟩
  · exact ⟨r, List.mem_append_left _ hr, hreset⟩

/-- One attempt keeps what the limit knows. -/
theorem soundAt_step (hblock : second ≤ config.ipBlockDuration)
    (hmax : config.maxConnectionsPerIp.toNat < 2 ^ 32 - 1) (h : SoundAt config es limit)
    (ht : Timed (es ++ [d])) (hs : AddressStep config limit d limit') :
    SoundAt config (es ++ [d]) limit' := by
  obtain ⟨-, hn, hlater⟩ := timed_concat.mp ht
  unfold AddressStep at hs
  generalize hdec : d.decision = decision at hs
  cases hs with
  | blocked hb =>
    have htimes : admittedTimes (es ++ [d]) = admittedTimes es :=
      admittedTimes_concat_of_ne (by simp [hdec])
    obtain ⟨l, u, rfl, hu, hlt⟩ := hb
    have h : Sound config es l := h
    refine ⟨htimes ▸ h.tiled, htimes ▸ h.count, ?_,
      forall_exceeded_concat (by simp [hdec]) h.block, h.room⟩
    obtain ⟨r, hr, hreset⟩ := h.reset
    exact ⟨r, List.mem_append_left _ hr, hreset⟩
  | exceeded hb hc =>
    have ho := open_window h hb hn hlater
    have htimes : admittedTimes (es ++ [d]) = admittedTimes es :=
      admittedTimes_concat_of_ne (by simp [hdec])
    have hcount := ho.toNat_counted hmax
    refine ⟨htimes ▸ ho.tiled, ?_, ho.reset_concat, ?_, .inr ⟨_, rfl, ?_⟩⟩
    · rw [htimes]
      exact ho.count.trans (hcount ▸ Nat.le_succ _)
    · intro b hb _
      refine ⟨_, rfl, Nat.add_le_add_right ?_ _⟩
      rw [List.mem_append, List.mem_singleton] at hb
      obtain hb | rfl := hb
      · exact (hlater b hb).trans hn
      · exact Nat.le_refl _
    · exact Nat.add_le_add ho.started hblock
  | admitted hb hc =>
    have ho := open_window h hb hn hlater
    have htimes : admittedTimes (es ++ [d]) = admittedTimes es ++ [d.now] := by
      rw [admittedTimes_concat, if_pos hdec]
    have hcount := ho.toNat_counted hmax
    have hle : (counted limit d.now).connectionCount.toNat ≤
        config.maxConnectionsPerIp.toNat := hc
    have hfree := ho.count
    refine ⟨htimes ▸ ho.tiled.concat ho.started ho.running (by omega), ?_, ho.reset_concat,
      forall_exceeded_concat (by simp [hdec]) ho.block, .inl hle⟩
    rw [htimes, countIn_concat, hcount]
    change countIn (admittedTimes es) (window limit d.now).lastReset
      ((window limit d.now).lastReset + second) + _ ≤ _
    split <;> omega

/-- A run of one address. -/
theorem soundAt_of_run (hblock : second ≤ config.ipBlockDuration)
    (hmax : config.maxConnectionsPerIp.toNat < 2 ^ 32 - 1)
    (h : Run (AddressStep config) none es limit) (ht : Timed es) : SoundAt config es limit := by
  induction h with
  | nil => exact rfl
  | snoc _ hs ih => exact soundAt_step hblock hmax (ih (timed_concat.mp ht).1) ht hs

end Invariant

/-! ### The limit of connections -/

/-- In every second, at most twice the limit of an address is admitted. -/
def WithinLimit (config : IpConfig) (es : List Decided) : Prop :=
  ∀ ip t, countIn (admittedTimes (attemptsOf ip es)) t (t + second) ≤
    2 * config.maxConnectionsPerIp.toNat

/-- An attempt is not admitted before the block of every refused attempt of its address has
passed, on either clock. -/
def BlockKept (config : IpConfig) (es : List Decided) : Prop :=
  Log.Each (fun before d ↦ d.decision = .admitted → ∀ refused ∈ before, refused.ip = d.ip →
    refused.decision = .exceeded →
    refused.now + config.ipBlockDuration ≤ d.checked ∧
      refused.now + config.ipBlockDuration ≤ d.now) es

/-- The attempts of an address are decided as if there were no others. -/
def Independent (config : IpConfig) (es : List Decided) : Prop :=
  ∀ ip, ∃ limits, AdmitRun config (attemptsOf ip es) limits

/-- Whenever an attempt is counted, the count does not overflow. -/
def CountFits (config : IpConfig) (es : List Decided) : Prop :=
  Log.Each (fun before d ↦ d.decision ≠ .blocked → ∀ limits, AdmitRun config before limits →
    (window (limits.lookup d.ip) d.now).connectionCount.toNat + 1 < 2 ^ 32) es

section Limit

variable {config : IpConfig} {es : List Decided} {limits : Table IpAddr IpRateLimit}

theorem mem_attemptsOf {ip : IpAddr} {d : Decided} : d ∈ attemptsOf ip es ↔ d ∈ es ∧ d.ip = ip := by
  simp [attemptsOf]

/-- What is known about the limit of an address in a run of all. -/
theorem soundAt_lookup (hblock : second ≤ config.ipBlockDuration)
    (hmax : config.maxConnectionsPerIp.toNat < 2 ^ 32 - 1) (h : AdmitRun config es limits)
    (ht : Timed es) (ip : IpAddr) : SoundAt config (attemptsOf ip es) (limits.lookup ip) :=
  soundAt_of_run hblock hmax (address_of_run h ip) (ht.filter _)

/-- The limit holds in every second. -/
theorem withinLimit_of_run (hblock : second ≤ config.ipBlockDuration)
    (hmax : config.maxConnectionsPerIp.toNat < 2 ^ 32 - 1) (h : AdmitRun config es limits)
    (ht : Timed es) : WithinLimit config es := by
  intro ip t
  have hs := soundAt_lookup hblock hmax h ht ip
  cases hl : limits.lookup ip with
  | none =>
    rw [hl] at hs
    rw [show attemptsOf ip es = [] from hs]
    exact Nat.zero_le _
  | some l =>
    rw [hl] at hs
    exact hs.tiled.bound t

/-- A block lasts. -/
theorem blockKept_of_run (hblock : second ≤ config.ipBlockDuration)
    (hmax : config.maxConnectionsPerIp.toNat < 2 ^ 32 - 1) (h : AdmitRun config es limits)
    (ht : Timed es) : BlockKept config es := by
  induction h with
  | nil => exact Log.each_nil
  | @snoc es limits limits' d hr hs ih =>
    obtain ⟨ht, hn, -⟩ := timed_concat.mp ht
    apply Log.each_concat.mpr ⟨ih ht, _⟩
    intro hadmitted refused hmem hip hexceeded
    have hd := (admits_checkAttempt config limits d.toAttempt).1
    rw [show checkAttempt config limits d.toAttempt = (d.decision, limits') from hs,
      hadmitted] at hd
    have hsound := soundAt_lookup hblock hmax hr ht d.ip
    have hmem := mem_attemptsOf.mpr ⟨hmem, hip⟩
    have hle : refused.now + config.ipBlockDuration ≤ d.checked := by
      cases hl : limits.lookup d.ip with
      | none =>
        rw [hl] at hsound
        rw [show attemptsOf d.ip es = [] from hsound] at hmem
        cases hmem
      | some l =>
        rw [hl] at hsound hd
        obtain ⟨blockedUntil, hu, hle⟩ := hsound.block refused hmem hexceeded
        generalize (limits'.lookup d.ip) = after at hd
        cases hd with
        | admitted hb _ =>
          apply hle.trans
          by_contra hlt
          exact hb ⟨l, blockedUntil, rfl, hu, Nat.not_le.mp hlt⟩
    exact ⟨hle, hle.trans hn⟩

/-- The attempts of one address alone are decided in the same way, and leave its limit as it
is in the run of all. -/
theorem address_alone (h : AdmitRun config es limits) (ip : IpAddr) : ∃ limits',
    AdmitRun config (attemptsOf ip es) limits' ∧ limits'.lookup ip = limits.lookup ip := by
  induction h with
  | nil => exact ⟨∅, .nil, rfl⟩
  | @snoc es limits limits' d _ hs ih =>
    obtain ⟨alone, hr, hl⟩ := ih
    obtain ⟨hown, hother⟩ := admits_checkAttempt config limits d.toAttempt
    rw [show checkAttempt config limits d.toAttempt = (d.decision, limits') from hs] at hown hother
    rw [attemptsOf, List.filter_append]
    by_cases hip : d.ip = ip
    · subst hip
      have hsame := (admits_checkAttempt config alone d.toAttempt).1
      rw [show alone.lookup d.toAttempt.ip = limits.lookup d.toAttempt.ip from hl] at hsame
      obtain ⟨hdecision, hlimit⟩ := hsame.unique hown
      rw [List.filter_singleton, decide_eq_true rfl]
      exact ⟨_, admitRun_concat hr hdecision, hlimit⟩
    · rw [List.filter_singleton, decide_eq_false hip, hother ip (Ne.symm hip)]
      exact ⟨alone, (List.append_nil _).symm ▸ hr, hl⟩

/-- The count fits. -/
theorem countFits_of_run (hblock : second ≤ config.ipBlockDuration)
    (hmax : config.maxConnectionsPerIp.toNat < 2 ^ 32 - 1) (h : AdmitRun config es limits)
    (ht : Timed es) : CountFits config es := by
  induction h with
  | nil => exact Log.each_nil
  | @snoc es limits limits' d hr hs ih =>
    obtain ⟨ht, hn, hlater⟩ := timed_concat.mp ht
    apply Log.each_concat.mpr ⟨ih ht, _⟩
    intro hcounted limits₁ hr₁
    have hl : limits₁ = limits :=
      Run.deterministic (f := fun l e ↦ (checkAttempt config l e.toAttempt).2)
        (fun _ _ _ h ↦ (congrArg Prod.snd h).symm) hr₁ hr
    subst hl
    have hd := (admits_checkAttempt config limits₁ d.toAttempt).1
    rw [show checkAttempt config limits₁ d.toAttempt = (d.decision, limits') from hs] at hd
    have hopen : ¬BlockedAt (limits₁.lookup d.ip) d.checked → Open config (attemptsOf d.ip es)
        d.now (window (limits₁.lookup d.ip) d.now) := by
      intro hb
      apply open_window (soundAt_lookup hblock hmax hr ht d.ip) hb hn
      intro d' hd'
      exact hlater d' (mem_attemptsOf.mp hd').1
    have hb : ¬BlockedAt (limits₁.lookup d.ip) d.checked := by
      generalize hdec : d.decision = decision at hd
      generalize limits'.lookup d.ip = after at hd
      cases hd with
      | blocked _ => exact absurd hdec hcounted
      | exceeded hb _ => exact hb
      | admitted hb _ => exact hb
    have := (hopen hb).room
    omega

/-- The limit of connections, in every run with a clock that does not run backwards. -/
theorem connection_limit (hblock : second ≤ config.ipBlockDuration)
    (hmax : config.maxConnectionsPerIp.toNat < 2 ^ 32 - 1) (h : AdmitRun config es limits)
    (ht : Timed es) :
    WithinLimit config es ∧ BlockKept config es ∧ Independent config es ∧
      CountFits config es := by
  refine ⟨withinLimit_of_run hblock hmax h ht, blockKept_of_run hblock hmax h ht, ?_,
    countFits_of_run hblock hmax h ht⟩
  intro ip
  obtain ⟨alone, hr, -⟩ := address_alone h ip
  exact ⟨alone, hr⟩

end Limit

/-- One connection a second. -/
def onePerSecond : IpConfig := ⟨1, 2 * second⟩

/-- Two attempts at once, and a third when the block has passed. -/
def threeAttempts : List Decided :=
  let ip : IpAddr := .v4 0x7F000001
  [⟨⟨ip, 5, 6⟩, .admitted⟩, ⟨⟨ip, 7, 8⟩, .exceeded⟩,
    ⟨⟨ip, 8 + 2 * second, 9 + 2 * second⟩, .admitted⟩]

/-- The second attempt is refused. -/
theorem connection_limit_three :
    WithinLimit onePerSecond threeAttempts ∧ BlockKept onePerSecond threeAttempts ∧
      Independent onePerSecond threeAttempts ∧ CountFits onePerSecond threeAttempts :=
  connection_limit (by decide) (by decide)
    (admitRun_concat (admitRun_concat (admitRun_concat .nil rfl) rfl) rfl)
    ⟨by decide, by decide⟩

end SilverPow.Server
