import ShardedCache.Proofs.Pool.Shared
import ShardedCache.Proofs.Relay.Linkage
import ShardedCache.Relay.Shared

namespace ShardedCache

open Pool (Alone)

namespace Relay.Shared

variable {κ ν : Type}

/-- The relay over a backplane as its only client reaches it. -/
def alone (plane : Backplane κ ν) (owner : Octets → Address) :
    Shared (StateM (Alone Address κ ν)) κ where
  pool := Alone.shared plane.usable
  owner := owner
  dial address := Alone.outside (plane.dial address)
  converse request conn := Alone.outside fun world =>
    let (answer, back, after) := plane.converse request conn world
    ((answer, back), after)
  spoil := plane.spoil

def follow (before : Alone Address κ ν) (routed : Routed κ ν) : Alone Address κ ν :=
  { before with pool := routed.pool, world := routed.world, closed := before.closed ++ routed.closed }

variable (plane : Backplane κ ν) (owner : Octets → Address) (before : Alone Address κ ν)

theorem run_forward (op : Opcode) (address : Address) (request : Packet) :
    ((alone plane owner).forward op address request).run before =
      pure ((Relay.forward plane before.now op address request before.pool before.world).reply,
        follow before
          (Relay.forward plane before.now op address request before.pool before.world)) := by
  have hborrow := Alone.run_borrow plane.usable before (plane.dial address) address
  rcases hloan : before.pool.borrow (plane.usable before.world) (plane.dial address) address
    before.world with ⟨loan, world⟩
  rw [hloan] at hborrow
  rcases hanswer : loan.answer with error | conn
  · simp [forward, alone, hborrow, hanswer, Relay.forward, hloan, Alone.absorb, follow]
  · rcases hconverse : plane.converse request.encode conn world with ⟨fault | frame, back, after⟩
    all_goals
      simp [forward, alone, hborrow, hanswer, Relay.forward, hloan, hconverse, Alone.run_giveBack,
        Alone.absorb, follow]

theorem run_route (request : Packet) :
    ((alone plane owner).route request).run before =
      pure ((Relay.route plane owner before.now request before.pool before.world).reply,
        follow before (Relay.route plane owner before.now request before.pool before.world)) := by
  rcases herrand : errand request with reply | ⟨op, key⟩
  · simp [route, Relay.route, herrand, follow]
  · simp only [route, Relay.route, herrand]
    exact run_forward plane owner before op (owner key) request

end Relay.Shared

namespace Station

variable {ω : Type}

def ofAlone (alone : Alone Address Link (Logged ω)) : Station ω :=
  ⟨alone.pool, alone.world⟩

def act (linkage : Linkage ω) (owner : Octets → Address) :
    Move ω → StateM (Alone Address Link (Logged ω)) Unit
  | .route now request => do
    modify fun alone => { alone with now := now }
    discard ((Relay.Shared.alone linkage.backplane owner).route request)
  | .sweep now => do
    modify fun alone => { alone with now := now }
    discard (Alone.shared linkage.backplane.usable).sweep
  | .elapse outside =>
    modify fun alone => { alone with world := { alone.world with outside := outside } }

theorem ofAlone_act (linkage : Linkage ω) (owner : Octets → Address) (m : Move ω)
    (before : Alone Address Link (Logged ω)) :
    ofAlone ((act linkage owner m).run before).run.2 = (ofAlone before).move linkage owner m := by
  cases m with
  | route now request =>
    simp [act, Functor.discard, map_const, Relay.Shared.run_route, Relay.Shared.follow, ofAlone, move,
      route]
  | sweep now =>
    simp [act, Functor.discard, map_const, Alone.run_sweep, ofAlone, move, Alone.absorb,
      Linkage.backplane]
  | elapse outside => rfl

/-- Whatever the moves, the program goes through them as the station does. -/
theorem ofAlone_acts (linkage : Linkage ω) (owner : Octets → Address) (moves : List (Move ω))
    (before : Alone Address Link (Logged ω)) :
    ofAlone ((forM moves (act linkage owner)).run before).run.2 =
      (ofAlone before).run linkage owner moves := by
  induction moves generalizing before with
  | nil => rfl
  | cons m moves ih =>
    simp [ih, ofAlone_act, run]

end Station

end ShardedCache
