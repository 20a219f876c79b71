import Pocket.Library.Quorum
import Pocket.Model.Node

/-!
# A network of nodes

Validators are known by their addresses.  Those with a configuration are honest: each is a
node process.  The others are byzantine and need no state, because an event may deliver
any message to any honest node at any time: messages get lost, overtake each other, are
repeated and are made up.

What limits the adversary is `Legal`: a delivered signature that verifies under the key of
an honest validator was made by that validator, over a vote it has sent.
-/

set_option autoImplicit false

namespace Pocket.Model

/-- The validators of every height and the configurations of the honest ones.  Fewer than a
third of the validators of a height are byzantine. -/
structure Network where
  platform : Platform
  validators : ℕ → List Actor
  config : String → Option NodeConfig
  distinct : ∀ height, ((validators height).map (·.address)).Nodup
  fewByzantine : ∀ height,
    3 * ((validators height).filter fun v => (config v.address).isNone).length
      < (validators height).length

/-- The validators that run the node program. -/
def Network.Honest (net : Network) (addr : String) : Prop := (net.config addr).isSome = true

instance (net : Network) : DecidablePred net.Honest := fun addr =>
  inferInstanceAs (Decidable ((net.config addr).isSome = true))

/-- More than two thirds of the validators of a height. -/
def Network.Quorum (net : Network) (height : ℕ) (Q : Finset String) : Prop :=
  Q ⊆ ((net.validators height).map (·.address)).toFinset
    ∧ 2 * (net.validators height).length < 3 * Q.card

/-- The states of the honest nodes and all they have put out, in order. -/
structure World where
  node : String → Option NodeState
  log : List (String × Output)

/-- An event at one of the nodes, with the answers its environment gives. -/
structure NetworkEvent where
  addr : String
  env : Env
  event : Event

/-- All honest nodes start, each at the height it has stored. -/
def World.start (heights : String → ℕ) : World where
  node addr := some (initialState (heights addr))
  log := []

/-- One event of the network. -/
def World.step (net : Network) (w : World) (e : NetworkEvent) : World :=
  match net.config e.addr, w.node e.addr with
  | some cfg, some m =>
    let r := handleEvent net.platform cfg e.env m e.event
    { node := Function.update w.node e.addr r.state, log := w.log ++ r.out.map (e.addr, ·) }
  | _, _ => w

/-- The node has sent the vote. -/
def World.Voted (w : World) (addr : String) (msg : HotstuffMessage) : Prop :=
  ∃ leader, (addr, Output.sendToLeader leader msg) ∈ w.log

/-- The node has committed the block. -/
def World.Committed (w : World) (addr : String) (height : ℕ) (block : Block) : Prop :=
  ∃ uow, (addr, Output.committed height block uow) ∈ w.log

/-- The signatures a message carries. -/
def HotstuffMessage.signatures (msg : HotstuffMessage) : List PartialSignature :=
  match msg.justification with
  | .none => []
  | .quorumCertificate qc => qc.thresholdSignature.elim [] (·.signatures)
  | .thresholdSignature ts => ts.signatures
  | .partialSignature ps => [ps]

/-- What the signature verifies for an honest validator is a vote that validator has sent. -/
def Unforged (net : Network) (w : World) (ps : PartialSignature) : Prop :=
  ∀ height, ∀ validator ∈ net.validators height, net.Honest validator.address →
    ∀ content, net.platform.verify validator.publicKey content ps.signature = true →
      ∃ vote, w.Voted validator.address vote ∧ getSignableBytes vote = content

/-- The events the network allows: every node reads the same validators, and signatures are
not forged. -/
structure Legal (net : Network) (w : World) (e : NetworkEvent) : Prop where
  validators : ∀ height vals, e.env.getValidatorsAtHeight height = some vals →
    vals = net.validators height
  unforged : ∀ msg, e.event = .message msg → ∀ ps ∈ msg.signatures, Unforged net w ps

/-- **Agreement**: blocks committed at one height differ at most in the certificate that is
written into the header. -/
def Agreement (w : World) : Prop :=
  ∀ addr addr' height block block', w.Committed addr height block →
    w.Committed addr' height block' → block.withoutCertificate = block'.withoutCertificate

/-! ## What one event does to a network -/

section Step

variable {net : Network} {w w' : World} {e : NetworkEvent} {cfg : NodeConfig} {m : NodeState}

theorem World.step_running (hcfg : net.config e.addr = some cfg) (hm : w.node e.addr = some m) :
    w.step net e =
      { node := Function.update w.node e.addr (handleEvent net.platform cfg e.env m e.event).state
        log := w.log ++ (handleEvent net.platform cfg e.env m e.event).out.map (e.addr, ·) } := by
  simp [World.step, hcfg, hm]

theorem World.step_idle (h : net.config e.addr = none ∨ w.node e.addr = none) :
    w.step net e = w := by
  unfold World.step
  rcases h with h | h
  · simp [h]
  · cases hcfg : net.config e.addr <;> simp [h]

theorem Unforged.mono (hlog : w.log ⊆ w'.log) {ps : PartialSignature} (h : Unforged net w ps) :
    Unforged net w' ps := by
  intro height validator hv hhonest content hverify
  obtain ⟨vote, ⟨leader, hvote⟩, hcontent⟩ := h height validator hv hhonest content hverify
  exact ⟨vote, ⟨leader, hlog hvote⟩, hcontent⟩

end Step

/-! ## Quorums -/

section Quorums

variable (net : Network) (height : ℕ)

theorem Network.card_byzantine :
    3 * ((((net.validators height).map (·.address)).toFinset).filter fun a => ¬ net.Honest a).card
      < (((net.validators height).map (·.address)).toFinset).card := by
  have hbyz : (((net.validators height).map (·.address)).toFinset).filter (fun a => ¬ net.Honest a)
      ⊆ (((net.validators height).filter fun v => (net.config v.address).isNone).map
          (·.address)).toFinset := by
    intro a ha
    rw [Finset.mem_filter, List.mem_toFinset, List.mem_map] at ha
    obtain ⟨⟨v, hv, rfl⟩, hnot⟩ := ha
    have hnone : (net.config v.address).isNone = true := by
      simpa [Network.Honest, Option.isSome_iff_ne_none] using hnot
    exact List.mem_toFinset.mpr (List.mem_map_of_mem (List.mem_filter.mpr ⟨hv, hnone⟩))
  have hcard := (Finset.card_le_card hbyz).trans (List.toFinset_card_le _)
  have hfew := net.fewByzantine height
  rw [List.toFinset_card_of_nodup (net.distinct height)]
  rw [List.length_map] at hcard ⊢
  omega

/-- Two quorums of a height share an honest validator. -/
theorem Network.exists_honest {Q Q' : Finset String} (hQ : net.Quorum height Q)
    (hQ' : net.Quorum height Q') : ∃ i ∈ Q, i ∈ Q' ∧ net.Honest i := by
  have hcard : (((net.validators height).map (·.address)).toFinset).card
      = (net.validators height).length := by
    rw [List.toFinset_card_of_nodup (net.distinct height), List.length_map]
  obtain ⟨i, hi, hi', hhonest⟩ := Quorum.exists_correct_of_two_quorums
    (net.card_byzantine height) hQ.1 hQ'.1 (hcard ▸ hQ.2) (hcard ▸ hQ'.2)
  exact ⟨i, hi, hi', not_not.mp hhonest⟩

end Quorums

end Pocket.Model
