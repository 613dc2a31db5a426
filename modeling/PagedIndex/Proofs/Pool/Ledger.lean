import Mathlib
import PagedIndex.Pool.Guard
import PagedIndex.Proofs.Pool.Coherence

/-!
# The ledger of pins

Every pin is somebody's: it is written down as a lease, or it belongs to the operation that is under way.
The pages under a lease stay where they are, and those changed under one are owed to the store.
-/

namespace PagedIndex

/-- The pages changed under a lease that was not yet given back. -/
def owedBy (leases : List Lease) (page : PageId) : Prop :=
  ∃ lease ∈ leases, lease.page = page ∧ lease.dirty = true

def leased (leases : List Lease) (page : PageId) : Nat := leases.countP fun lease => lease.page = page

variable {leases before after : List Lease} {lease : Lease} {page : PageId}

theorem leased_cons (lease : Lease) (leases : List Lease) (page : PageId) :
    leased (lease :: leases) page = leased leases page + Pool.one lease.page page := by
  simp [leased, Pool.one, List.countP_cons]

theorem leased_split (before after : List Lease) (lease : Lease) (page : PageId) :
    leased (before ++ lease :: after) page = leased (before ++ after) page + Pool.one lease.page page := by
  simp [leased, Pool.one, List.countP_append, List.countP_cons, Nat.add_assoc]

theorem leased_pos (member : lease ∈ leases) : 0 < leased leases lease.page :=
  List.countP_pos_iff.mpr ⟨lease, member, by simp⟩

theorem leased_pos_of_owed (owes : owedBy leases page) : 0 < leased leases page := by
  obtain ⟨lease, member, rfl, _⟩ := owes
  exact leased_pos member

theorem owedBy_clean (clean : lease.dirty = false) : owedBy (lease :: leases) = owedBy leases := by
  funext page
  simp [owedBy, clean]

theorem owedBy_split {other : PageId} (lease : Lease) (differ : lease.page ≠ other) :
    owedBy (before ++ after) other ↔ owedBy (before ++ lease :: after) other := by
  simp [owedBy, List.mem_append, List.mem_cons, or_and_right, exists_or, differ]

namespace Pool

open PageKeeper (Intact)

variable {σ : Type} [BackingStore σ] [PageKeeper σ] {pool later : Pool σ} {mine gain : PageId → Nat}
  {id : FrameId} {dirty : Bool}

/-- The pins of a pool are those of the leases and those of the operation that is under way. -/
structure Sound (leases : List Lease) (mine : PageId → Nat) (pool : Pool σ) : Prop where
  coherent : Coherent (owedBy leases) [] pool
  pins : ∀ page, pool.pinsOf page = leased leases page + mine page
  placed : ∀ lease ∈ leases, pool.residents[lease.page]? = some lease.frame

theorem created_sound {size k : Nat} {store : σ} (intact : Intact store) (made : create size k store = .ok pool) :
    Sound [] (fun _ => 0) pool := by
  have books := create_bookkept made
  have unpinned := pinsOf_created made
  obtain ⟨next, replacer, number, tracking, rfl⟩ := create_eq made
  have nothing : ∀ page : PageId, ¬ owedBy [] page := fun page owes => by simp [owedBy] at owes
  refine ⟨⟨books, intact.usable, ?_, ?_, fun page owes => absurd owes (nothing page), fun page outside => ?_⟩,
    fun page => unpinned page, List.forall_mem_nil _⟩
  · intro frame member _
    exact (Array.mem_replicate.mp member).2
  · intro page frame present
    rw [frameOf?_absent Std.TreeMap.getElem?_emptyc] at present
    cases present
  · exact ⟨intact.tight page, (PageKeeper.bound_ok intact.usable number page outside).symm⟩

theorem Sound.placed_later (sound : Sound leases mine pool) (stays : Stays pool later) :
    ∀ lease ∈ leases, later.residents[lease.page]? = some lease.frame := by
  intro lease member
  rw [stays lease.page, sound.placed lease member]
  rw [sound.pins]
  have held := leased_pos member
  omega

theorem Sound.quiet (sound : Sound leases mine pool) (quiet : Quiet (owedBy leases) gain pool later) :
    Sound leases (fun page => mine page + gain page) later where
  coherent := quiet.coherent
  pins page := by rw [quiet.pins, sound.pins, Nat.add_assoc]
  placed := sound.placed_later quiet.stays

theorem Sound.hand_over (sound : Sound leases mine pool) (held : ∀ page, mine page = gain page + one lease.page page)
    (clean : lease.dirty = false) (resident : pool.residents[lease.page]? = some lease.frame) :
    Sound (lease :: leases) gain pool where
  coherent := by rw [owedBy_clean clean]; exact sound.coherent
  pins page := by
    rw [sound.pins, held, leased_cons]
    omega
  placed other member := by
    rcases List.mem_cons.mp member with rfl | member
    · exact resident
    · exact sound.placed other member

theorem Sound.seat (sound : Sound leases mine pool) (page : PageId)
    (pinned : 0 < leased leases page + mine page) :
    ∃ id frame history, pool.Seat page id frame history ∧ frame.pins = leased leases page + mine page := by
  rw [← sound.pins] at pinned
  cases resident : pool.residents[page]? with
  | none =>
    rw [pinsOf_absent resident] at pinned
    cases pinned
  | some id =>
    obtain ⟨frame, history, seat⟩ := sound.coherent.kept.seat resident
    exact ⟨id, frame, history, seat, by rw [← seat.pinsOf, sound.pins]⟩

/-- Pins may be put down as leases that no page was changed under. -/
theorem Sound.lend {pins : Multiset PageId} (rest : Multiset PageId)
    (sound : Sound leases ((rest + pins).count ·) pool) :
    ∃ more, owedBy more = owedBy leases ∧ Sound more (pins.count ·) pool := by
  induction rest using Multiset.induction generalizing leases with
  | empty => exact ⟨leases, rfl, by simpa using sound⟩
  | cons page rest ih =>
    have pinned : 0 < leased leases page + (page ::ₘ rest + pins).count page :=
      Nat.add_pos_right _ (Multiset.count_pos.mpr (by simp))
    obtain ⟨id, _, _, seat, _⟩ := sound.seat page pinned
    let lease : Lease := { page, frame := id }
    have lent : Sound (lease :: leases) ((rest + pins).count ·) pool :=
      sound.hand_over (fun other => by simp [lease, Multiset.count_cons, one, eq_comm]) rfl seat.resident
    obtain ⟨more, owing, sound⟩ := ih lent
    exact ⟨more, owing.trans (owedBy_clean rfl), sound⟩

theorem Sound.seat_of_lease (sound : Sound leases mine pool) (member : lease ∈ leases) :
    ∃ frame history, pool.Seat lease.page lease.frame frame history ∧
      frame.pins = leased leases lease.page + mine lease.page := by
  obtain ⟨frame, history, seat⟩ := sound.coherent.kept.seat (sound.placed lease member)
  exact ⟨frame, history, seat, by rw [← seat.pinsOf, sound.pins]⟩

/-- Nothing is to be seen of a pin that is given back, if it takes along whatever mark it owes. -/
theorem Sound.released {rest : List Lease} (sound : Sound leases mine pool)
    (count : ∀ other, leased leases other + mine other = leased rest other + gain other + one page other)
    (fewer : ∀ lease ∈ rest, lease ∈ leases)
    (owing : ∀ other, page ≠ other → (owedBy rest other ↔ owedBy leases other))
    (marked : owedBy leases page → owedBy rest page ∨ dirty = true) :
    ∃ later, unpin page dirty pool = .ok true later ∧ Sound rest gain later ∧
      Lasting (owedBy leases) (owedBy rest) pool later ∧ later.residents = pool.residents ∧
      later.next = pool.next := by
  have here := count page
  simp only [one, if_pos] at here
  obtain ⟨id, frame, history, seat, pins⟩ := sound.seat page (by omega)
  have pinned : 0 < frame.pins := by omega
  have reframed : Reframed pool page id _ (pool.released id frame history dirty) := reframed_released dirty
  have released : Coherent (owedBy rest) [] _ ∧ Lasting (owedBy leases) (owedBy rest) pool _ :=
    sound.coherent.released seat pinned owing marked fun owes => by
      have some_left := leased_pos_of_owed owes
      omega
  refine ⟨_, sound.coherent.kept.unpin_released seat pinned dirty, ⟨released.1, fun other => ?_, ?_⟩, released.2, rfl,
    rfl⟩
  · have all := count other
    have before := sound.pins other
    rw [reframed.pinsOf sound.coherent.kept seat]
    simp only [one] at all
    split
    · rename_i same
      subst same
      rw [if_pos rfl] at all
      change frame.pins - 1 = _
      omega
    · rename_i differ
      rw [if_neg differ] at all
      omega
  · exact fun lease member => sound.placed lease (fewer lease member)

theorem Sound.give_back (sound : Sound leases mine pool) (held : ∀ other, mine other = gain other + one page other)
    (dirty : Bool) : ∃ later, unpin page dirty pool = .ok true later ∧ Sound leases gain later ∧
      Lasting (owedBy leases) (owedBy leases) pool later ∧ later.residents = pool.residents ∧
      later.next = pool.next :=
  sound.released (fun other => by rw [held, Nat.add_assoc]) (fun _ member => member) (fun _ _ => Iff.rfl) .inl

theorem Sound.unlease (sound : Sound (before ++ lease :: after) mine pool)
    (marked : lease.dirty = true → dirty = true) :
    ∃ later, unpin lease.page dirty pool = .ok true later ∧ Sound (before ++ after) mine later ∧
      Lasting (owedBy (before ++ lease :: after)) (owedBy (before ++ after)) pool later ∧
      later.residents = pool.residents ∧ later.next = pool.next := by
  refine sound.released (fun other => ?_) (fun other member => ?_) (fun other differ => owedBy_split lease differ) ?_
  · rw [leased_split]
    omega
  · rcases List.mem_append.mp member with early | late
    · exact List.mem_append_left _ early
    · exact List.mem_append_right _ (List.mem_cons_of_mem _ late)
  · rintro ⟨other, member, same, owes⟩
    rcases List.mem_append.mp member with early | late
    · exact .inl ⟨other, List.mem_append_left _ early, same, owes⟩
    · rcases List.mem_cons.mp late with rfl | late
      · exact .inr (marked owes)
      · exact .inl ⟨other, List.mem_append_right _ late, same, owes⟩

/-- The page that is changed is owed to the store from then on, and no other is. -/
structure Rewrites (owed due : PageId → Prop) (page : PageId) (bytes : Page) (pool later : Pool σ) : Prop where
  visible : ∀ other, later.visible other = if page = other then bytes else pool.visible other
  firm : ∀ other, page = other ∨ Firm owed pool other → Firm due later other

theorem Sound.write_leased (sound : Sound (before ++ lease :: after) mine pool) (change : Page → Page) :
    ∃ later, overwriteFrame lease.frame (fun old => return change old) pool = .ok () later ∧
      Sound (before ++ { lease with dirty := true } :: after) mine later ∧
      Rewrites (owedBy (before ++ lease :: after)) (owedBy (before ++ { lease with dirty := true } :: after))
        lease.page (change (pool.visible lease.page)) pool later ∧
      later.residents = pool.residents ∧ later.next = pool.next := by
  have member : lease ∈ before ++ lease :: after := by simp
  obtain ⟨frame, history, seat, pins⟩ := sound.seat_of_lease member
  have held := leased_pos member
  have owing : ∀ other, lease.page ≠ other →
      (owedBy (before ++ { lease with dirty := true } :: after) other ↔
        owedBy (before ++ lease :: after) other) := by
    intro other differ
    have with_mark := @owedBy_split before after other { lease with dirty := true } differ
    exact with_mark.symm.trans (owedBy_split lease differ)
  obtain ⟨rewritten, firm⟩ := sound.coherent.rewritten seat (change frame.page) frame.dirty owing
    (.inr ⟨{ lease with dirty := true }, by simp, rfl, rfl⟩) (by omega)
  have reframed : Reframed pool lease.page lease.frame { frame with page := change frame.page } _ :=
    reframed_place _
  refine ⟨_, overwriteFrame_ok seat.frame_at rfl, ⟨rewritten, fun other => ?_, fun other there => ?_⟩,
    ⟨fun other => ?_, fun other before => ?_⟩, rfl, rfl⟩
  · have same : leased (before ++ { lease with dirty := true } :: after) other =
        leased (before ++ lease :: after) other := by
      rw [leased_split, leased_split]
    rw [reframed.pinsOf sound.coherent.kept seat, same, ← sound.pins]
    split
    · rename_i here
      rw [← here, seat.pinsOf]
    · rfl
  · rcases List.mem_append.mp there with early | late
    · exact sound.placed other (List.mem_append_left _ early)
    · rcases List.mem_cons.mp late with rfl | late
      · exact sound.placed lease member
      · exact sound.placed other (List.mem_append_right _ (List.mem_cons_of_mem _ late))
  · rw [reframed.visible sound.coherent.kept seat rfl, seat.visible]
  · by_cases here : lease.page = other
    · rw [← here]
      exact firm
    · exact ((reframed.confined sound.coherent.kept seat).firm here (owing other here).mpr
        (before.resolve_left here)).1

theorem Sound.mark_leased (sound : Sound leases mine pool) (member : lease ∈ leases) :
    ∃ later, setDirty lease.frame pool = .ok () later ∧ Sound leases mine later ∧
      Lasting (owedBy leases) (owedBy leases) pool later ∧ later.next = pool.next := by
  obtain ⟨frame, history, seat, pins⟩ := sound.seat_of_lease member
  have reframed : Reframed pool lease.page lease.frame { frame with dirty := true } _ := reframed_place _
  obtain ⟨marked, lasting⟩ := sound.coherent.marked seat
  refine ⟨_, setDirty_ok seat.frame_at, ⟨marked, fun other => ?_, sound.placed⟩, lasting, rfl⟩
  rw [reframed.pinsOf sound.coherent.kept seat, ← sound.pins]
  split
  · rename_i here
    rw [← here, seat.pinsOf]
  · rfl

end Pool

end PagedIndex
