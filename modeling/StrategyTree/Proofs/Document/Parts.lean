import StrategyTree.Document.Reader
import StrategyTree.Proofs.Document.Value
/-!
# The parts of a node in a document

Conditions, weightings and quantifiers read back as they were written. Only their
windows and counts have bounds.
-/
namespace StrategyTree

open Outcome

variable {α : Type}

/-! ### Readings -/

namespace Reading

def Fits (r : Reading) : Prop :=
  Json.IsWindow r.window

theorem ofMembers_of_lookup {members : Members α} {r : Reading} (hr : r.Fits)
    (hmetric : members.lookup "metric" = some (.text r.metric.name))
    (hticker : members.lookup "ticker" = some (.text r.ticker))
    (hwindow : members.lookup "window" = some (.integer r.window)) (loose : Bool) :
    ofMembers loose members = .ok r := by
  have hname := RoundTrip.unit (α := α) loose Metric.ofName?_name
  refine bind_ok.2 ⟨r.metric, Members.required_of_lookup hmetric (hname.back trivial), ?_⟩
  refine bind_ok.2 ⟨r.ticker, Members.required_of_lookup hticker rfl, ?_⟩
  exact bind_ok.2 ⟨r.window,
    Members.withDefault_of_lookup hwindow (RoundTrip.window.back hr), rfl⟩

theorem fits_of_members {loose : Bool} {members : Members α} {r : Reading}
    (h : ofMembers loose members = .ok r) : r.Fits := by
  obtain ⟨metric, -, h⟩ := bind_ok.1 h
  obtain ⟨ticker, -, h⟩ := bind_ok.1 h
  obtain ⟨window, hwindow, h⟩ := bind_ok.1 h
  obtain rfl := Except.ok.inj h
  exact Members.isWindow_of_withDefault hwindow

theorem roundTrip (loose : Bool) : RoundTrip (α := α) Fits (ofJson loose) toJson where
  back {r} hr := ofMembers_of_lookup hr rfl rfl rfl loose
  fits {v r} hv := by
    obtain ⟨members, -, h⟩ := bind_ok.1 hv
    exact fits_of_members h

end Reading

variable [Arith α]

namespace Reference

def Fits : Reference α → Prop
  | threshold _ => True
  | reading r => r.Fits

theorem roundTrip : RoundTrip (α := α) Fits ofJson toJson where
  back {r} hr := by
    cases r with
    | threshold x => rfl
    | reading r => exact map_ok.2 ⟨r, (Reading.roundTrip false).back hr, rfl⟩
  fits {v r} hv := by
    unfold ofJson at hv
    split at hv
    · exact Except.ok.inj hv ▸ trivial
    · obtain ⟨r, hr, rfl⟩ := map_ok.1 hv
      exact (Reading.roundTrip false).fits hr

end Reference

/-! ### Conditions -/

namespace Comparator

omit [Arith α] in
theorem roundTrip : RoundTrip (α := α) (fun _ => True) ofJson fun c => .text c.display where
  back {c} _ := by
    cases c <;> rfl
  fits _ := trivial

end Comparator

namespace Condition

structure Fits (c : Condition α) : Prop where
  left : c.left.Fits
  right : c.right.Fits
  sustainedDays : ∀ days, c.sustainedDays = some days → days ≤ Nat.pow 2 32 - 1

theorem roundTrip (loose : Bool) : RoundTrip (α := α) Fits (ofJson loose) toJson where
  back {c} hc := by
    obtain ⟨connective, left, comparator, right, days⟩ := c
    obtain ⟨hleft, hright, hdays⟩ := hc
    refine bind_ok.2 ⟨some comparator,
      Members.optional_of_lookup rfl (Comparator.roundTrip.back trivial), ?_⟩
    refine bind_ok.2 ⟨some right,
      Members.optional_of_lookup rfl (Reference.roundTrip.back hright), ?_⟩
    refine bind_ok.2 ⟨days, ?sustained, ?_⟩
    case sustained =>
      cases days with
      | none => exact Members.withDefault_of_absent rfl
      | some n =>
          have hback := (RoundTrip.countTo (α := α) _).back (hdays n rfl)
          exact Members.withDefault_of_lookup rfl
            (Json.readNullable_of_ne (by simp [Json.ofNat]) hback)
    have hname := RoundTrip.unit (α := α) loose Connective.ofName?_name
    refine bind_ok.2 ⟨connective, Members.required_of_lookup ?type (hname.back trivial), ?_⟩
    case type => cases days <;> rfl
    refine bind_ok.2 ⟨left, Reading.ofMembers_of_lookup hleft rfl ?ticker ?window true, rfl⟩
    case ticker => cases days <;> rfl
    case window => cases days <;> rfl
  fits {v c} hv := by
    cases v with
    | object members =>
        obtain ⟨comparator, -, h⟩ := bind_ok.1 hv
        obtain ⟨right, hright, h⟩ := bind_ok.1 h
        obtain ⟨sustained, hsustained, h⟩ := bind_ok.1 h
        obtain ⟨connective, -, h⟩ := bind_ok.1 h
        obtain ⟨left, hleft, h⟩ := bind_ok.1 h
        obtain ⟨comparator', -, h⟩ := bind_ok.1 h
        obtain ⟨right', hright', h⟩ := bind_ok.1 h
        obtain rfl := Except.ok.inj h
        obtain ⟨v, hv⟩ := Members.of_optional hright hright'
        refine ⟨Reading.fits_of_members hleft, Reference.roundTrip.fits hv, fun days hd => ?_⟩
        rcases Members.of_withDefault hsustained with hnone | ⟨v, hv⟩
        · cases hnone.symm.trans hd
        · exact (RoundTrip.countTo _).fits (Json.of_readNullable hv hd)
    | _ => cases hv

/-- A list of conditions. -/
theorem listRoundTrip (loose : Bool) : RoundTrip (α := α) (fun cs => ∀ c ∈ cs, Fits c)
    (listOfJson loose) listToJson :=
  (roundTrip loose).list

/-- An item of a numbered node. -/
theorem itemRoundTrip : RoundTrip (α := α) (fun cs => ∀ c ∈ cs, Fits c) itemOfJson itemToJson where
  back hcs := Members.required_of_lookup rfl ((listRoundTrip true).back hcs)
  fits {v cs} hv := by
    cases v with
    | object members =>
        obtain ⟨v, hv⟩ := Members.of_required hv
        exact (listRoundTrip true).fits hv
    | array items =>
        cases items with
        | nil => cases hv
        | cons v rest =>
            obtain ⟨cs', hcs, h⟩ := bind_ok.1 hv
            split at h
            · obtain rfl := Except.ok.inj h
              exact (listRoundTrip true).fits hcs
            · cases h
    | _ => cases hv

end Condition

/-! ### Choices -/

namespace Selection

omit [Arith α] in
theorem roundTrip : RoundTrip (α := α) (fun _ => True) (Json.readUnit true ofName?)
    fun s => .text s.name :=
  .unit true fun s => by cases s <;> rfl

end Selection

namespace Quantifier

def Fits : Quantifier → Prop
  | atLeast n | atMost n | exactly n => Json.IsCount n
  | all | any | none | ladder => True

omit [Arith α] in
theorem roundTrip : RoundTrip (α := α) Fits ofJson toJson where
  back {q} hq := by
    cases q with
    | atLeast n => exact map_ok.2 ⟨n, RoundTrip.count.back hq, rfl⟩
    | atMost n => exact map_ok.2 ⟨n, RoundTrip.count.back hq, rfl⟩
    | exactly n => exact map_ok.2 ⟨n, RoundTrip.count.back hq, rfl⟩
    | _ => rfl
  fits {v q} hv := by
    obtain ⟨variant, -, h⟩ := bind_ok.1 hv
    split at h
    · obtain ⟨n, hn, rfl⟩ := map_ok.1 h
      exact RoundTrip.count.fits hn
    · obtain ⟨n, hn, rfl⟩ := map_ok.1 h
      exact RoundTrip.count.fits hn
    · obtain ⟨n, hn, rfl⟩ := map_ok.1 h
      exact RoundTrip.count.fits hn
    · obtain ⟨name, hname⟩ := Json.of_readUnit h
      unfold ofName? at hname
      split at hname <;> cases hname <;> trivial

end Quantifier

namespace Weighting

def Fits : Weighting α → Prop
  | inverseVolatility window | volatility window => Json.IsWindow window
  | equal | specified _ | capped .. => True

theorem roundTrip (loose : Bool) : RoundTrip (α := α) Fits (ofJson loose) toJson where
  back {w} hw := by
    cases w with
    | equal => rfl
    | inverseVolatility window =>
        refine bind_ok.2 ⟨_, rfl, bind_ok.2 ⟨[("window", .integer window)], rfl, ?_⟩⟩
        exact bind_ok.2 ⟨window, Members.required_of_lookup rfl (RoundTrip.window.back hw), rfl⟩
    | volatility window =>
        refine bind_ok.2 ⟨_, rfl, bind_ok.2 ⟨[("window", .integer window)], rfl, ?_⟩⟩
        exact bind_ok.2 ⟨window, Members.required_of_lookup rfl (RoundTrip.window.back hw), rfl⟩
    | specified weights =>
        have hweights := RoundTrip.number.list.back (b := weights) fun _ _ => trivial
        refine bind_ok.2 ⟨_, rfl, bind_ok.2
          ⟨[("weights", .array (weights.map .real))], rfl, ?_⟩⟩
        exact bind_ok.2 ⟨weights, Members.required_of_lookup rfl hweights, rfl⟩
    | capped cap fallback =>
        have hcap := RoundTrip.number.back (b := cap) trivial
        refine bind_ok.2 ⟨_, rfl, bind_ok.2
          ⟨("cap", .real cap) :: Json.ifPresent "fallback" .text fallback, rfl, ?_⟩⟩
        refine bind_ok.2 ⟨cap, Members.required_of_lookup rfl hcap, ?_⟩
        refine bind_ok.2 ⟨fallback, ?_, rfl⟩
        cases fallback with
        | none => exact Members.withDefault_of_absent rfl
        | some ticker => exact Members.withDefault_of_lookup rfl rfl
  fits {v w} hv := by
    obtain ⟨variant, -, h⟩ := bind_ok.1 hv
    split at h
    · obtain ⟨members, -, h⟩ := bind_ok.1 h
      obtain ⟨window, hwindow, h⟩ := bind_ok.1 h
      obtain ⟨v, hv⟩ := Members.of_required hwindow
      exact Except.ok.inj h ▸ RoundTrip.window.fits hv
    · obtain ⟨members, -, h⟩ := bind_ok.1 h
      obtain ⟨window, hwindow, h⟩ := bind_ok.1 h
      obtain ⟨v, hv⟩ := Members.of_required hwindow
      exact Except.ok.inj h ▸ RoundTrip.window.fits hv
    · obtain ⟨members, -, h⟩ := bind_ok.1 h
      obtain ⟨weights, -, h⟩ := bind_ok.1 h
      exact Except.ok.inj h ▸ trivial
    · obtain ⟨members, -, h⟩ := bind_ok.1 h
      obtain ⟨cap, -, h⟩ := bind_ok.1 h
      obtain ⟨fallback, -, h⟩ := bind_ok.1 h
      exact Except.ok.inj h ▸ trivial
    · obtain ⟨name, hname⟩ := Json.of_readUnit h
      split at hname <;> cases hname
      trivial

end Weighting
end StrategyTree
