import Mootvote.Program.Deposit
import Mootvote.Smt.Node

set_option autoImplicit false

namespace Mootvote.Program

open Shared

section account

def ZkRelayerConfig.serialize (env : Env) (c : ZkRelayerConfig) : List UInt8 :=
  (env.addressBytes c.admin).bytes ++ (bytesBE 8 c.fee.toNat).reverse ++
    ((bytesBE 4 c.endpoint.utf8ByteSize).reverse ++ c.endpoint.toByteArray.data.toList ++
      (env.addressBytes c.feeKey).bytes)

theorem ZkRelayerConfig.length_serialize (env : Env) (c : ZkRelayerConfig) :
    (c.serialize env).length = 76 + c.endpoint.utf8ByteSize := by
  have text : c.endpoint.toByteArray.data.toList.length = c.endpoint.utf8ByteSize := Array.length_toList
  simp only [serialize, List.length_append, Word.length_bytes, List.length_reverse, length_bytesBE, text]
  omega

variable {l l' : Ledger} {source destination : Address} {amount : Nat}

theorem Ledger.transfer_left (done : l.transfer source destination amount = .ok l')
    (distinct : source ≠ destination) : l'.lamports source + amount = l.lamports source := by
  have enough := transfer_enough done
  unfold transfer at done
  rw [if_neg (Nat.not_lt.2 enough)] at done
  cases done
  simp only [Function.update_of_ne distinct, Function.update_self]
  omega

end account

namespace ZkRelayer

section runs

/-- The ledger and the length of the config account's data, which is fixed when the account is created. -/
structure Sized where
  ledger : Ledger
  dataLen : Nat

inductive ConfigCall where
  | initializeConfig (i : Initialize)
  | updateConfig (u : UpdateConfig)

def ConfigCall.endpoint : ConfigCall → String
  | .initializeConfig i => i.endpoint
  | .updateConfig u => u.endpoint

structure ConfigTx where
  signers : List Word
  call : ConfigCall

variable (env : Env)

def ConfigTx.execute (s : Sized) (tx : ConfigTx) : Outcome Sized :=
  let signers := tx.signers.map .key
  match tx.call with
  | .initializeConfig i => do
      let l ← ZkRelayer.initializeConfig env signers s.ledger i
      return { ledger := l, dataLen := zkRelayerConfigSpace i.endpoint.utf8ByteSize }
  | .updateConfig u => do
      let l ← ZkRelayer.updateConfig env signers s.ledger u
      return { s with ledger := l }

def Sized.Step (s : Sized) (tx : ConfigTx) (s' : Sized) : Prop := tx.execute env s = .ok s'

/-- The account has room for the discriminator and the config, and is exempt from rent. -/
structure Sized.Kept (s : Sized) : Prop where
  room : ∀ c, s.ledger.relayerConfig = some c → 1 + (c.serialize env).length ≤ s.dataLen
  exempt : env.minimumBalance s.dataLen ≤ s.ledger.lamports .relayerConfig

end runs

section accounting

variable {env : Env} {base perByte start len₀ : Nat} {s s' : Sized} {tx : ConfigTx}

structure Accounted (perByte start len₀ : Nat) (endpoint : String) (s : Sized) : Prop where
  config : ∃ c, s.ledger.relayerConfig = some c ∧ c.endpoint = endpoint
  lamports : s.ledger.lamports .relayerConfig + perByte * len₀ = start + perByte * endpoint.utf8ByteSize
  dataLen : s.dataLen = zkRelayerConfigSpace len₀

theorem key_ne_relayerConfig {signers : List Word} {payer : Address}
    (signs : payer ∈ signers.map Address.key) :
    payer ≠ .relayerConfig := by
  obtain ⟨_, _, rfl⟩ := List.mem_map.1 signs
  exact nofun

theorem Accounted.initializeConfig (perByte : Nat) {i : Initialize}
    (called : tx.call = .initializeConfig i) (step : Sized.Step env s tx s') :
    Accounted perByte (max (env.minimumBalance (zkRelayerConfigSpace i.endpoint.utf8ByteSize))
      (s.ledger.lamports .relayerConfig)) i.endpoint.utf8ByteSize i.endpoint s' := by
  simp only [Sized.Step, ConfigTx.execute, called, ZkRelayer.initializeConfig, bind_ok_iff,
    require_ok_iff, pure_ok_iff,
    decide_eq_true_eq] at step
  obtain ⟨_, ⟨_, signs, _, _, l, funded, rfl⟩, rfl⟩ := step
  refine ⟨⟨_, rfl, rfl⟩, ?_, rfl⟩
  have received := Ledger.transfer_destination funded (key_ne_relayerConfig signs).symm
  simp only [received]
  omega

theorem rentDiff_eq (linear : ∀ n, env.minimumBalance n = base + perByte * n) (n : Nat) :
    env.minimumBalance n - env.minimumBalance 0 = perByte * n := by
  rw [linear, linear]
  omega

theorem Accounted.update {endpoint : String} {u : UpdateConfig}
    (accounted : Accounted perByte start len₀ endpoint s)
    (linear : ∀ n, env.minimumBalance n = base + perByte * n) (called : tx.call = .updateConfig u)
    (step : Sized.Step env s tx s') : Accounted perByte start len₀ u.endpoint s' := by
  obtain ⟨⟨c, found, rfl⟩, lamports, dataLen⟩ := accounted
  simp only [Sized.Step, ConfigTx.execute, called, ZkRelayer.updateConfig, bind_ok_iff,
    require_ok_iff, pure_ok_iff,
    decide_eq_true_eq, load_ok_iff, found, Option.some.injEq, rentDiff_eq linear] at step
  obtain ⟨_, ⟨_, signs, _, _, _, rfl, _, _, l, paid, rfl⟩, rfl⟩ := step
  have other := key_ne_relayerConfig signs
  refine ⟨⟨_, rfl, rfl⟩, ?_, dataLen⟩
  change l.lamports .relayerConfig + _ = _
  split_ifs at paid with longer
  · have received := Ledger.transfer_destination paid other.symm
    rw [max_eq_right longer.le, min_eq_left longer.le] at received
    have difference : perByte * (u.endpoint.utf8ByteSize - c.endpoint.utf8ByteSize) +
        perByte * c.endpoint.utf8ByteSize = perByte * u.endpoint.utf8ByteSize := by
      rw [← Nat.mul_add, Nat.sub_add_cancel longer.le]
    omega
  · have shorter := Nat.not_lt.1 longer
    have sent := Ledger.transfer_left paid other.symm
    rw [max_eq_left shorter, min_eq_right shorter] at sent
    have difference : perByte * (c.endpoint.utf8ByteSize - u.endpoint.utf8ByteSize) +
        perByte * u.endpoint.utf8ByteSize = perByte * c.endpoint.utf8ByteSize := by
      rw [← Nat.mul_add, Nat.sub_add_cancel shorter]
    omega

theorem Accounted.step {endpoint : String} (accounted : Accounted perByte start len₀ endpoint s)
    (linear : ∀ n, env.minimumBalance n = base + perByte * n) (step : Sized.Step env s tx s') :
    Accounted perByte start len₀ tx.call.endpoint s' := by
  cases called : tx.call with
  | updateConfig u => exact accounted.update linear called step
  | initializeConfig i =>
      obtain ⟨c, found, _⟩ := accounted.config
      simp [Sized.Step, ConfigTx.execute, called, ZkRelayer.initializeConfig, bind_ok_iff,
        require_ok_iff, found] at step

structure Fits (perByte surplus len₀ : Nat) (endpoint : String) : Prop where
  room : endpoint.utf8ByteSize ≤ len₀ + 36
  exempt : perByte * (len₀ - endpoint.utf8ByteSize) ≤ surplus

theorem Accounted.kept_iff {endpoint : String} {before : Nat}
    (accounted : Accounted perByte (max (env.minimumBalance (zkRelayerConfigSpace len₀)) before)
      len₀ endpoint s) :
    s.Kept env ↔ Fits perByte (before - env.minimumBalance (zkRelayerConfigSpace len₀)) len₀ endpoint := by
  obtain ⟨⟨c, found, rfl⟩, lamports, dataLen⟩ := accounted
  have room : 1 + (c.serialize env).length ≤ s.dataLen ↔ c.endpoint.utf8ByteSize ≤ len₀ + 36 := by
    rw [c.length_serialize, dataLen, zkRelayerConfigSpace]
    omega
  have exempt : env.minimumBalance s.dataLen ≤ s.ledger.lamports .relayerConfig ↔
      perByte * (len₀ - c.endpoint.utf8ByteSize) ≤
        before - env.minimumBalance (zkRelayerConfigSpace len₀) := by
    rw [dataLen, Nat.mul_sub]
    omega
  refine ⟨fun kept => ⟨room.1 (kept.room c found), exempt.1 kept.exempt⟩, fun fits => ⟨fun c' found' => ?_,
    exempt.2 fits.exempt⟩⟩
  cases found.symm.trans found'
  exact room.2 fits.room

theorem Accounted.run {endpoint : String} {txs : List ConfigTx}
    (linear : ∀ n, env.minimumBalance n = base + perByte * n)
    (accounted : Accounted perByte start len₀ endpoint s)
    (run : Steps (Sized.Step env) s txs s') :
    ∃ last, (last = endpoint ∨ ∃ tx ∈ txs, tx.call.endpoint = last) ∧
    Accounted perByte start len₀ last s' := by
  refine run.invariant (I := fun past s => ∃ last, (last = endpoint ∨ ∃ tx ∈ past, tx.call.endpoint = last) ∧
    Accounted perByte start len₀ last s) ⟨endpoint, .inl rfl, accounted⟩ ?_
  intro past s tx s' _ ⟨_, _, accounted⟩ step
  exact ⟨_, .inr ⟨tx, by simp, rfl⟩, accounted.step linear step⟩

theorem Fits.refl (perByte surplus : Nat) (endpoint : String) :
    Fits perByte surplus endpoint.utf8ByteSize endpoint where
  room := Nat.le_add_right _ _
  exempt := by simp

end accounting

/-- The config account keeps its size and rent invariant in all states of a run if and only if every endpoint
fits the space and the lamports that the account was created with. -/
theorem config_kept_iff {env : Env} {base perByte : Nat}
    (linear : ∀ n, env.minimumBalance n = base + perByte * n)
    {s₀ s : Sized} {signers : List Word} {i : Initialize} {txs : List ConfigTx}
    (run : Steps (Sized.Step env) s₀ (⟨signers, .initializeConfig i⟩ :: txs) s) :
    (∀ past mid, past ≠ [] → past <+: ⟨signers, .initializeConfig i⟩ :: txs →
      Steps (Sized.Step env) s₀ past mid → mid.Kept env) ↔
    ∀ tx ∈ txs, Fits perByte
      (s₀.ledger.lamports .relayerConfig - env.minimumBalance (zkRelayerConfigSpace i.endpoint.utf8ByteSize))
      i.endpoint.utf8ByteSize tx.call.endpoint := by
  constructor
  · intro kept tx member
    obtain ⟨front, back, rfl⟩ := List.append_of_mem member
    obtain ⟨s₁, initialized, later⟩ := Steps.cons_iff.1 run
    obtain ⟨mid, before, rest⟩ := Steps.append_iff.1 later
    obtain ⟨mid', step, _⟩ := Steps.cons_iff.1 rest
    obtain ⟨_, _, accounted⟩ := (Accounted.initializeConfig perByte rfl initialized).run linear before
    have reached : Steps (Sized.Step env) s₀ (⟨signers, .initializeConfig i⟩ :: (front ++ [tx])) mid' :=
      .cons initialized (before.snoc step)
    exact (accounted.step linear step).kept_iff.1
      (kept _ mid' (List.cons_ne_nil _ _) ⟨back, by simp⟩ reached)
  · intro fits past mid nonempty inside reached
    cases reached with
    | nil => exact absurd rfl nonempty
    | @cons _ s₁ _ tx past initialized later =>
        obtain ⟨rfl, within⟩ := List.cons_prefix_cons.1 inside
        obtain ⟨last, given, accounted⟩ :=
          (Accounted.initializeConfig perByte rfl initialized).run linear later
        rw [accounted.kept_iff]
        rcases given with rfl | ⟨tx, member, rfl⟩
        · exact .refl _ _ _
        · exact fits tx (within.subset member)

namespace ShorterEndpoint

def env : Env := { OneVoter.env with minimumBalance := fun n => 890880 + 6960 * n }

def payer : Word := 1

def initializeTx (endpoint : String) : ConfigTx where
  signers := [payer]
  call := .initializeConfig
    { payer := .key payer, endpoint, feeKey := .key payer, admin := .key payer, fee := 0 }

def updateTx (endpoint : String) : ConfigTx where
  signers := [payer]
  call := .updateConfig
    { payer := .key payer, admin := .key payer, endpoint, feeKey := .key payer,
      newAdmin := .key payer, fee := 0 }

def start : Sized := ⟨genesis 0 fun a => if a = .key payer then 10 ^ 9 else 0, 0⟩

def summary (s : Sized) : Nat × Nat × Option String :=
  (s.dataLen, s.ledger.lamports .relayerConfig, s.ledger.relayerConfig.map ZkRelayerConfig.endpoint)

theorem run {endpoint endpoint' : String} {x : Nat × Nat × Option String}
    (found : (do
      let s₁ ← (initializeTx endpoint).execute env start
      let s₂ ← (updateTx endpoint').execute env s₁
      return summary s₂) = .ok x) :
    ∃ s, Steps (Sized.Step env) start [initializeTx endpoint, updateTx endpoint'] s ∧ summary s = x := by
  obtain ⟨s₁, first, found⟩ := bind_ok_iff.1 found
  obtain ⟨s₂, second, found⟩ := bind_ok_iff.1 found
  exact ⟨s₂, .cons first (.cons second (.nil _)), pure_ok_iff.1 found⟩

theorem shortened : ∃ s, Steps (Sized.Step env) start [initializeTx "a", updateTx ""] s ∧
    summary s = (114, 890880 + 6960 * 113, some "") := run (by decide +kernel)

theorem lengthened : ∃ s, Steps (Sized.Step env) start
    [initializeTx "", updateTx "https://relayer.example.com/endpoint/"] s ∧
    summary s = (113, 890880 + 6960 * 150, some "https://relayer.example.com/endpoint/") := run (by decide +kernel)

theorem linear (n : Nat) : env.minimumBalance n = 890880 + 6960 * n := rfl

theorem config_kept_iff_longer : ∃ s, Steps (Sized.Step env) start [initializeTx "a", updateTx "ab"] s ∧
    ∀ past mid, past ≠ [] → past <+: [initializeTx "a", updateTx "ab"] →
      Steps (Sized.Step env) start past mid → mid.Kept env := by
  obtain ⟨s, reached, _⟩ := @run "a" "ab" (114, 890880 + 6960 * 115, some "ab") (by decide +kernel)
  refine ⟨s, reached, (config_kept_iff linear reached).2 fun tx member => ?_⟩
  rw [List.mem_singleton.1 member]
  exact ⟨by decide +kernel, by decide +kernel⟩

/-- A shorter endpoint takes the account's rent, a longer one leaves it without room. -/
theorem config_not_kept : (∀ n, env.minimumBalance n = 890880 + 6960 * n) ∧
    (∃ s, Steps (Sized.Step env) start [initializeTx "a", updateTx ""] s ∧ s.dataLen = 114 ∧
      s.ledger.lamports .relayerConfig < env.minimumBalance s.dataLen) ∧
    ∃ s c, Steps (Sized.Step env) start [initializeTx "", updateTx "https://relayer.example.com/endpoint/"] s ∧
      s.dataLen = 113 ∧ s.ledger.relayerConfig = some c ∧ 1 + (c.serialize env).length = 114 := by
  refine ⟨linear, ?_, ?_⟩
  · obtain ⟨s, reached, found⟩ := shortened
    simp only [summary, Prod.mk.injEq] at found
    obtain ⟨dataLen, lamports, _⟩ := found
    refine ⟨s, reached, dataLen, ?_⟩
    rw [dataLen, lamports, linear]
    decide
  · obtain ⟨s, reached, found⟩ := lengthened
    simp only [summary, Prod.mk.injEq, Option.map_eq_some_iff] at found
    obtain ⟨dataLen, _, c, isConfig, endpoint⟩ := found
    refine ⟨s, c, reached, dataLen, isConfig, ?_⟩
    rw [c.length_serialize, endpoint]
    decide +kernel

end ShorterEndpoint

end ZkRelayer

end Mootvote.Program
