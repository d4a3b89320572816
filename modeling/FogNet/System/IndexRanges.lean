import FogNet.System.LinkInvariant

namespace FogNetModel

open CentralizedCoordinator

/-- `size() - 1`, in the unsigned arithmetic of the source. -/
def lastIndex (coordinates : List ℤ) : BitVec 64 := BitVec.ofNat 64 coordinates.length - 1

structure IntVar where
  lower : ℤ
  upper : ℤ

def IntVar.Ranges (var : IntVar) (index : Nat) : Prop := var.lower ≤ index ∧ index ≤ var.upper

def makeIndexVar (coordinates : List ℤ) : IntVar := ⟨0, (lastIndex coordinates).toInt⟩

namespace Problem

def aVar (problem : Problem) : IntVar := makeIndexVar problem.aHostsX

def bVar (problem : Problem) : IntVar := makeIndexVar problem.bHostsX

/-- No size wraps, both variables have values, the coordinate arrays describe the host arrays, and
    an index in range is that of a mobile or an immobile host of the network. -/
structure WellPosed (net : FogNetwork) (problem : Problem) : Prop where
  aUnwrapped : (lastIndex problem.aHostsX).toNat + 1 = problem.aHostsX.length
  bUnwrapped : (lastIndex problem.bHostsX).toNat + 1 = problem.bHostsX.length
  aRange : problem.aVar.lower ≤ problem.aVar.upper
  bRange : problem.bVar.lower ≤ problem.bVar.upper
  aligned : problem.Aligned
  aFilled : problem.aHostsX ≠ [] ∧ problem.aHostsY ≠ []
  bFilled : problem.bHostsX ≠ [] ∧ problem.bHostsY ≠ []
  aHost : ∀ a, problem.aVar.Ranges a →
    ∃ device, net.Holds device ∧ device.Mobile ∧ hostAt problem.aHosts a = .ok device.getFullName
  bHost : ∀ b, problem.bVar.Ranges b →
    ∃ device, net.Holds device ∧ ¬ device.Mobile ∧ hostAt problem.bHosts b = .ok device.getFullName

end Problem

/-- The sizes of the host arrays are those of arrays in memory. -/
structure FogNetwork.Addressable (net : FogNetwork) : Prop where
  mobile : net.numHosts < 2 ^ 63
  immobile : net.numFogHosts + net.numCloudHosts < 2 ^ 63

end FogNetModel

namespace FogNetProof.Runs

open FogNetModel FogNetModel.CentralizedCoordinator Kernel FogNetProof.Names FogNetProof.Rounds

section Bounds

variable {coordinates : List ℤ} (filled : 0 < coordinates.length) (fits : coordinates.length < 2 ^ 63)

include filled fits

theorem lastIndex_unwrapped : (lastIndex coordinates).toNat + 1 = coordinates.length := by
  have size : (BitVec.ofNat 64 coordinates.length).toNat = coordinates.length := by
    rw [BitVec.toNat_ofNat]
    omega
  have above : (1 : BitVec 64) ≤ BitVec.ofNat 64 coordinates.length := by
    rw [BitVec.le_def, size]
    exact filled
  have one : (1 : BitVec 64).toNat = 1 := rfl
  rw [lastIndex, BitVec.toNat_sub_of_le above, size, one]
  omega

theorem makeIndexVar_upper : (makeIndexVar coordinates).upper + 1 = coordinates.length := by
  have unsigned := lastIndex_unwrapped filled fits
  have signed : (makeIndexVar coordinates).upper = (lastIndex coordinates).toNat :=
    BitVec.toInt_eq_toNat_of_lt (by omega)
  omega

theorem makeIndexVar_nonempty : (makeIndexVar coordinates).lower ≤ (makeIndexVar coordinates).upper := by
  have upper := makeIndexVar_upper filled fits
  have lower : (makeIndexVar coordinates).lower = 0 := rfl
  omega

theorem makeIndexVar_bound {index : Nat} (inRange : (makeIndexVar coordinates).Ranges index) :
    index < coordinates.length := by
  have upper := makeIndexVar_upper filled fits
  have below := inRange.2
  omega

end Bounds

theorem bDevices_perm (net : FogNetwork) :
    (bDevices net).Perm (vector .fogHost net.numFogHosts ++ vector .cloudHost net.numCloudHosts) := by
  have gates := actionGates_nodup net
  rw [FogNetwork.actionGates, List.append_assoc] at gates
  refine (List.perm_ext_iff_of_nodup (bDevices_nodup net) gates.of_append_right).mpr fun device => ?_
  obtain ⟨kind, index⟩ := device
  cases kind <;> simp [mem_bDevices, FogNetwork.Holds, FogNetwork.size, Device.Mobile]

theorem bDevices_length (net : FogNetwork) :
    (bDevices net).length = net.numFogHosts + net.numCloudHosts := by
  simp [(bDevices_perm net).length_eq, vector]

theorem hostAt_mem {hosts : List (List Char)} {index : Nat} (bound : index < hosts.length) :
    ∃ name ∈ hosts, hostAt hosts index = .ok name := by
  have read : hosts[index]? = some hosts[index] := List.getElem?_eq_getElem bound
  refine ⟨hosts[index], List.getElem_mem bound, ?_⟩
  rw [hostAt, read]

theorem aHostsX_length (net : FogNetwork) (state : State) :
    (state.problem net).aHostsX.length = state.participant.length := by
  simp [State.problem, problem]

theorem bHostsX_length (net : FogNetwork) (state : State) :
    (state.problem net).bHostsX.length = net.numFogHosts + net.numCloudHosts := by
  simp [State.problem, problem, bDevices_length]

theorem problem_wellPosed {net : FogNetwork} {state : State} (addressable : net.Addressable)
    (registered : Registered net state.participant) (full : state.participant.length = net.numHosts)
    (mobile : 0 < net.numHosts) (immobile : 0 < net.numFogHosts + net.numCloudHosts) :
    (state.problem net).WellPosed net := by
  have aSize := (aHostsX_length net state).trans full
  have bSize := bHostsX_length net state
  have aligned : (state.problem net).Aligned := problem_aligned _ _ _
  rw [← aSize] at mobile
  rw [← bSize] at immobile
  have aFits : (state.problem net).aHostsX.length < 2 ^ 63 := aSize ▸ addressable.mobile
  have bFits : (state.problem net).bHostsX.length < 2 ^ 63 := bSize ▸ addressable.immobile
  refine ⟨lastIndex_unwrapped mobile aFits, lastIndex_unwrapped immobile bFits,
    makeIndexVar_nonempty mobile aFits, makeIndexVar_nonempty immobile bFits, aligned,
    ⟨?_, ?_⟩, ⟨?_, ?_⟩, fun a inRange => ?_, fun b inRange => ?_⟩
  · exact List.ne_nil_of_length_pos mobile
  · exact List.ne_nil_of_length_pos (aligned.aY.trans aligned.aX.symm ▸ mobile)
  · exact List.ne_nil_of_length_pos immobile
  · exact List.ne_nil_of_length_pos (aligned.bY.trans aligned.bX.symm ▸ immobile)
  · have bound := makeIndexVar_bound mobile aFits inRange
    obtain ⟨name, stored, read⟩ := hostAt_mem (aligned.aX ▸ bound)
    obtain ⟨device, held, isMobile, rfl⟩ := aHosts_mobile registered stored
    exact ⟨device, held, isMobile, read⟩
  · have bound := makeIndexVar_bound immobile bFits inRange
    obtain ⟨name, listed, read⟩ := hostAt_mem (aligned.bX ▸ bound)
    obtain ⟨device, held, isImmobile, rfl⟩ := bHosts_immobile listed
    exact ⟨device, held, isImmobile, read⟩

/-- A round past its guard poses a well formed problem exactly in the networks that have both mobile
    and immobile hosts: the guard lets an empty side pass. -/
theorem well_posed_iff {net : FogNetwork} {config : Config} (addressable : net.Addressable)
    (reachable : Reachable net config) (full : config.state.participant.length = net.numHosts) :
    (config.state.problem net).WellPosed net ↔
      0 < net.numHosts ∧ 0 < net.numFogHosts + net.numCloudHosts := by
  constructor
  · intro posed
    have aSize := (aHostsX_length net config.state).trans full
    have bSize := bHostsX_length net config.state
    have aUnwrapped := posed.aUnwrapped
    have bUnwrapped := posed.bUnwrapped
    omega
  · rintro ⟨mobile, immobile⟩
    exact problem_wellPosed addressable (reachable_wellformed reachable).registered full mobile immobile

def firstReport : List Label :=
  let sender := Device.mk .mobileHost 0
  [.timer (.localTick sender) ⟨0, []⟩, .deliver (.sync ⟨sender.getFullName, 0, 0⟩)]

theorem well_posed_firstReport :
    ∃ config, Reachable (.ofSizes 1 1 0) config ∧
      (config.state.problem (.ofSizes 1 1 0)).WellPosed (.ofSizes 1 1 0) := by
  have played : ((Config.initial fun _ => ⟨0, 0⟩).play (.ofSizes 1 1 0) firstReport).map
      (fun config => config.state.participant.length) = some 1 := by decide +kernel
  obtain ⟨config, reached, full⟩ := Option.map_eq_some_iff.mp played
  have reachable : Reachable (.ofSizes 1 1 0) config := play_reachable reached
  have addressable : (FogNetwork.ofSizes 1 1 0).Addressable := ⟨by decide, by decide⟩
  exact ⟨config, reachable, (well_posed_iff addressable reachable full).mpr ⟨by decide, by decide⟩⟩

/-- With no immobile host the guard passes all the same, and the size of the empty array wraps. -/
theorem no_immobile_wraps :
    ¬ ∀ (net : FogNetwork) (config : Config), net.Addressable → Reachable net config →
      config.state.participant.length = net.numHosts → (config.state.problem net).WellPosed net := by
  intro always
  have played : ((Config.initial fun _ => ⟨0, 0⟩).play (.ofSizes 1 0 0) firstReport).map
      (fun config => config.state.participant.length) = some 1 := by decide +kernel
  obtain ⟨config, reached, full⟩ := Option.map_eq_some_iff.mp played
  have reachable : Reachable (.ofSizes 1 0 0) config := play_reachable reached
  have posed := always (.ofSizes 1 0 0) config ⟨by decide, by decide⟩ reachable full
  exact posed.bFilled.1 (List.eq_nil_of_length_eq_zero (bHostsX_length _ config.state))

end FogNetProof.Runs
