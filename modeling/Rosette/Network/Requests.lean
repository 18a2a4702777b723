import Rosette.Network.Orderly

/-! # Requests and replies on one connection

What a move of the network or the relay does to the requests and replies of a single
connection.
-/
namespace Rosette.Network
open Foundation Proto Rosette.Core Relay Engine World

variable {mls : OpenMls} {ι : Type} {c : Crypto}

/-- One connection through one move. -/
inductive Carried (c : Crypto) (w : World mls ι) (h : Happening mls ι) (w' : World mls ι)
    (k : ConnId) : Prop where
  | same (up : (w'.conns k).up = (w.conns k).up)
      (replies : (w'.conns k).replies = (w.conns k).replies)
      (answered : (w'.conns k).answered = (w.conns k).answered)
      (closed : (w'.conns k).closed = (w.conns k).closed)
  /-- The relay has answered its first request. -/
  | served {amb rid msg rest t reply} (event : h = .serve k amb)
      (head : (w.conns k).up = (rid, msg) :: rest)
      (handled : w.service.relay.handle c amb msg (some k) = (t, .answered reply))
      (log : w'.service.log = w.service.log ++ [(msg, reply)])
      (up : (w'.conns k).up = rest)
      (replies : (w'.conns k).replies = (w.conns k).replies ++ [(rid, reply)])
      (answered : (w'.conns k).answered = (w.conns k).answered)
      (closed : (w'.conns k).closed = (w.conns k).closed)
  /-- The relay has died over its first request. -/
  | died {f rest} (head : (w.conns k).up = f :: rest) (up : (w'.conns k).up = rest)
      (replies : (w'.conns k).replies = (w.conns k).replies)
      (answered : (w'.conns k).answered = (w.conns k).answered)
      (closed : (w'.conns k).closed = (w.conns k).closed)
  /-- Its reader has taken a reply. -/
  | replied {r rest} (isOpen : (w.conns k).closed = false)
      (head : (w.conns k).replies = r :: rest) (up : (w'.conns k).up = (w.conns k).up)
      (replies : (w'.conns k).replies = rest)
      (answered : (w'.conns k).answered = (w.conns k).answered ++ [r])
      (closed : (w'.conns k).closed = false)
  | severed (event : h = .sever k) (up : (w'.conns k).up = (w.conns k).up)
      (replies : (w'.conns k).replies = (w.conns k).replies)
      (answered : (w'.conns k).answered = (w.conns k).answered)

theorem Moved.carried {w w' : World mls ι} {h : Happening mls ι} {k : ConnId} (hm : Moved c w h w')
    (hk : k < w.nextConn) (ho : (w.conns k).owner.isSome = true) :
    Carried c w h w' k := by
  have hother : ∀ {k' : ConnId} {conn : Conn ι} {service : Service}, k ≠ k' →
      Carried c w h { w.setConn k' conn with service := service } k := by
    intro k' conn service hne
    have hsame : ({ w.setConn k' conn with service := service } : World mls ι).conns k =
        w.conns k := w.setConn_of_ne hne conn
    exact .same (by rw [hsame]) (by rw [hsame]) (by rw [hsame]) (by rw [hsame])
  cases hm with
  | @served k' amb rid msg rest t reply serving up handled =>
    by_cases hkk : k = k'
    · subst hkk
      refine .served rfl up handled rfl ?_ ?_ ?_ ?_ <;> simp [World.setConn]
    · exact hother hkk
  | @died k' amb rid msg rest t serving up =>
    by_cases hkk : k = k'
    · subst hkk
      refine .died up ?_ ?_ ?_ ?_ <;> simp [World.setConn]
    · exact hother hkk
  | @replied k' r rest closed replies =>
    by_cases hkk : k = k'
    · subst hkk
      refine .replied closed replies ?_ ?_ ?_ ?_ <;> rw [setConn_self]
      exact closed
    · exact hother hkk
  | @severed k' =>
    by_cases hkk : k = k'
    · subst hkk
      refine .severed rfl ?_ ?_ ?_ <;> rw [setConn_self]
    · exact hother hkk
  | @delivered k' =>
    by_cases hkk : k = k'
    · subst hkk
      refine .same ?_ ?_ ?_ ?_ <;> simp [World.setConn]
    · exact hother hkk
  | @broken k' =>
    by_cases hkk : k = k'
    · subst hkk
      refine .same ?_ ?_ ?_ ?_ <;> rw [setConn_self]
    · exact hother hkk
  | hungUp | restarted | restartedMidway => exact .same rfl rfl rfl rfl
  | dialled =>
    have hsame := w.dial_of_ne (ne_of_lt hk) none
    exact .same (by rw [hsame]) (by rw [hsame]) (by rw [hsame]) (by rw [hsame])
  | @outside k' msg opened owner =>
    refine hother ?_
    rintro rfl
    simp [owner] at ho

end Rosette.Network
