import GammaFit.Proofs.Region.Range

/-!
# Reloading a region from a document

A region's request can replace the region by the one a document describes (`reload`). That
region is made by operations a request runs one after another: new data over the spectrum
between the document's edges, the edge windows placed over the bins the document names, and the
stored peaks loaded under the identities the counter hands out while they are read
(`Region.ReadBack`, `Region.ofDocument_readBack`).

So `reload` needs no constructor of `Request.Reachable`: the region it leaves is reached by those
steps, under the settings it was read with (`Request.Reachable.reload`). Every property proved of
reachable regions holds of it, and so of every region that a run of steps, reloading any number
of times, reaches.
-/

namespace GammaFit

open Search (Finder)
open Json

namespace Region

variable {n k : Nat} {r t : Region} {parent : Finder}

/-! ## Reading a region back -/

/-- A stored peak, when it is read, takes the identity the counter hands out. -/
theorem storedPeak_runs (hx : Ascending r.finder.x) (e : Value) :
    RegionM.Runs (r.storedPeak e) k fun o k' => ∀ p, o = some p → k ≤ p.id ∧ p.id < k' := by
  unfold storedPeak
  split
  · dsimp only
    split
    · -- a Hypermet peak takes its identity before its shape is read
      refine .bind (.nextPeakId (Q := fun id k' => id = k ∧ k' = k + 1) ⟨rfl, rfl⟩)
        fun id k' _ hid => .liftOutcome_bind fun h? _ => .pure fun p hp => ?_
      obtain ⟨g, -, rfl⟩ := Option.map_eq_some_iff.mp hp
      dsimp only
      omega
    · refine .liftOutcome_bind fun bins _ => ?_
      rcases bins with _ | bins
      · exact .pure fun _ h => by cases h
      · exact .mono (summationPeak_spec hx) fun o k' _ ho p hp => by
          obtain ⟨hid, hk', -⟩ := ho p hp
          omega
  · exact .pure fun _ h => by cases h

/-- A region over a range of data is new data taken by a new region. -/
theorem ofRange_eq_ok {s : Settings} {x y : Array Float} {minBin maxBin : Float}
    {o : Option Region} :
    ofRange s x y minBin maxBin = .ok o ↔ (Region.new s).setData x y minBin maxBin = .ok o := by
  unfold ofRange
  cases (Region.new s).setData x y minBin maxBin <;> simp [Except.mapError]

/-- New data taken by a new region has ascending bins, whatever edge windows are placed over
them. -/
theorem setData_ascending {s : Settings} {x y : Array Float} {minBin maxBin : Float} {r₁ : Region}
    (h : (Region.new s).setData x y minBin maxBin = .ok (some r₁)) (lbBins rbBins : Float × Float) :
    Ascending (r₁.setEdges lbBins rbBins).2.finder.x := by
  rw [setEdges_bins]
  exact ((setData_spec (Request.sound_new (n := 0)).toWf).ok_of_eq h r₁ rfl).bins

/-- What a region read back from a document over `parent` is made of: new data with some
settings over the spectrum between the document's edges, the edge windows placed over the bins
it names, and stored peaks loaded under identities the counter handed out from `n` up to `k`. -/
def ReadBack (parent : Finder) (n k : Nat) (t : Region) : Prop :=
  ∃ (s : Settings) (lbBins rbBins : Float × Float) (r₁ : Region) (peaks : List Peak)
    (bg : Option Background) (d : String),
    (Region.new s).setData parent.x parent.y lbBins.1 rbBins.2 = .ok (some r₁) ∧
      (r₁.setEdges lbBins rbBins).1 = true ∧ (∀ p ∈ peaks, n ≤ p.id ∧ p.id < k) ∧
      (r₁.setEdges lbBins rbBins).2.loadFit peaks bg d = .ok t

/-- A region read from a document is read back from it. The document's kind of settings, of
background and of peak list each give a copy of what follows them, which reads the same. -/
theorem ofDocument_readBack {doc : Value} {s : Settings} :
    RegionM.Runs (Region.ofDocument doc parent s) n fun o k => ∀ t, o = some t →
      ReadBack parent n k t := by
  unfold Region.ofDocument
  dsimp only
  split
  · split
    all_goals
      refine .bind (P := fun _ k => k = n)
        (by first | exact .liftOutcome fun _ _ => rfl | exact .pure rfl) fun settings k _ hk => ?_
      subst k
      refine .liftOutcome_bind fun lb _ => ?_
      split
      rotate_left
      · exact .pure fun _ h => by cases h
      rename_i lbBins _
      refine .liftOutcome_bind fun rb _ => ?_
      split
      rotate_left
      · exact .pure fun _ h => by cases h
      rename_i rbBins _
      split
      · exact .pure fun _ h => by cases h
      refine .liftOutcome_bind fun o ho => ?_
      split
      rotate_left
      · exact .pure fun _ h => by cases h
      rename_i r₁
      have hdata := ofRange_eq_ok.mp ho
      have hx := setData_ascending hdata lbBins rbBins
      split
      · exact .pure fun _ h => by cases h
      rename_i hplaced
      have hplaced : (r₁.setEdges lbBins rbBins).1 = true := by simpa using hplaced
      split
      all_goals
        refine .bind (P := fun _ k => k = n)
          (by first | exact .liftOutcome fun _ _ => rfl | exact .pure rfl) fun bg k _ hk => ?_
        subst k
        split
        all_goals
          refine .bind (P := fun _ k => k = n)
            (by first | exact .pure rfl | exact .throw) fun entries k _ hk => ?_
          subst k
          -- every stored peak read takes an identity handed out from `n` on
          refine .bind (.forIn (fun (ps : List Peak) k => n ≤ k ∧ ∀ p ∈ ps, n ≤ p.id ∧ p.id < k)
            ⟨Nat.le_refl n, fun _ h => by cases h⟩ fun e ps k _ hps => ?_) fun ps k _ hps => ?_
          · refine .bind (storedPeak_runs hx e) fun o k' hk' ho => ?_
            split
            · refine .pure ⟨Nat.le_trans hps.1 hk', fun p hp => ?_⟩
              rcases List.mem_append.mp hp with hp | hp
              · exact ⟨(hps.2 p hp).1, Nat.lt_of_lt_of_le (hps.2 p hp).2 hk'⟩
              · rw [List.mem_singleton.mp hp]
                have := ho _ rfl
                exact ⟨Nat.le_trans hps.1 this.1, this.2⟩
            · exact .pure ⟨Nat.le_trans hps.1 hk',
                fun p hp => ⟨(hps.2 p hp).1, Nat.lt_of_lt_of_le (hps.2 p hp).2 hk'⟩⟩
          · refine .liftOutcome fun o hload t ht => ?_
            obtain ⟨t', ht', hpure⟩ := Outcome.bind_eq_ok.mp hload
            obtain rfl := Outcome.pure_eq_ok.mp hpure
            cases ht
            exact ⟨settings, lbBins, rbBins, r₁, ps, _, _, hdata, hplaced, hps.2, ht'⟩
  · exact .pure fun _ h => by cases h
  · exact .pure fun _ h => by cases h
  · exact .pure fun _ h => by cases h
  · exact .bind (P := fun _ _ => False) .throw fun _ _ _ h => h.elim

/-- A region read back holds only identities the counter handed out while it was read. -/
theorem ReadBack.keys (h : ReadBack parent n k t) :
    ∀ i ∈ t.peakMap.map Prod.fst, n ≤ i ∧ i < k := by
  obtain ⟨s, lbBins, rbBins, r₁, peaks, bg, d, hdata, -, hids, hload⟩ := h
  -- the loaded peaks are brought up to date, which keeps only identities put in
  have hwf : Wf (r₁.setEdges lbBins rbBins).2.settings k
      { (r₁.setEdges lbBins rbBins).2 with
        background := bg.or (r₁.setEdges lbBins rbBins).2.background,
        peakMap := peaks.foldl insertPeak [] } :=
    ⟨rfl, setData_ascending hdata lbBins rbBins, PeakIds.nil.foldl_insertPeak peaks, fun i hi => by
      obtain ⟨p, hp, rfl⟩ := (foldl_insertPeak_keys hi).resolve_left nofun
      exact (hids p hp).2⟩
  rw [loadFit_eq] at hload
  intro i hi
  obtain ⟨p, hp, rfl⟩ :=
    (foldl_insertPeak_keys ((refresh_spec hwf d t hload).2 hi)).resolve_left nofun
  exact hids p hp

end Region

namespace Request

open Region

variable {s : Settings} {n k n' : Nat} {r t : Region} {parent : Finder}

/-! ## Reloading is reached by the steps it is made of -/

/-- New data given by its bounds is taken as the step `set_data` takes it. -/
theorem regionStep_setData {lo hi : Float} (h : r.setData parent.x parent.y lo hi = .ok (some t)) :
    ((regionStep parent r (.obj [("do", .str "set_data"), ("min", .num lo), ("max", .num hi)])).run.run
      n).run = (.ok (.ok (.bool true), t), n) := by
  unfold regionStep
  simp only [String.reduceBEq, Value.get?, arg, Value.field, number, List.find?_cons,
    Option.map_some, Outcome.ok_bind, liftOutcome, pure_bind, h]
  rfl

/-- Edge windows given by their bounds are placed as the step `set_edges` places them. -/
theorem regionStep_setEdges {lbBins rbBins : Float × Float} :
    ((regionStep parent r (.obj [("do", .str "set_edges"),
      ("lb", .arr [.num lbBins.1, .num lbBins.2]), ("rb", .arr [.num rbBins.1, .num rbBins.2])])).run.run
      n).run = (.ok (.ok (.bool (r.setEdges lbBins rbBins).1), (r.setEdges lbBins rbBins).2), n) := by
  unfold regionStep
  simp only [String.reduceBEq, Value.get?, arg, Value.field, number, numberPair, List.find?_cons,
    Option.map_some, Outcome.ok_bind, liftOutcome]
  rfl

/-- A region read back is reached, under the settings it was read with: new data and the edge
windows are two steps of a request, and the stored peaks are loaded under identities below the
counter. -/
theorem ReadBack.reachable (h : ReadBack parent n k t) : Reachable t.settings parent t k := by
  obtain ⟨s, lbBins, rbBins, r₁, peaks, bg, d, hdata, hplaced, hids, hload⟩ := h
  have h₁ : Reachable s parent r₁ k :=
    Reachable.step (.new k) (by simp [Value.get?]) (by decide : "set_data" ≠ "reload")
      (regionStep_setData hdata)
  have h₂ : Reachable s parent (r₁.setEdges lbBins rbBins).2 k :=
    Reachable.step h₁ (by simp [Value.get?]) (by decide : "set_edges" ≠ "reload")
      regionStep_setEdges
  have hbins : (r₁.setEdges lbBins rbBins).2.finder.x ≠ #[] := by
    rw [setEdges_bins]
    exact setData_bins.ok_of_eq hdata r₁ rfl
  have h₃ := Reachable.loadFit h₂ hbins (fun p hp => (hids p hp).2) hload
  rw [h₃.sound.settings]
  exact h₃

/-- Reloading reads the document without handing out an identity, then keeps the region or
leaves one read back. -/
theorem regionStep_reload {step : Value} (hdo : step.get? "do" = some (.str "reload")) :
    RegionM.Runs (regionStep parent r step) n fun res k => res.2 = r ∨ ReadBack parent n k res.2 := by
  unfold regionStep
  simp only [hdo]
  -- the document is the one given, or the region's own: either way no identity is handed out
  split
  split
  all_goals
    refine .bind (P := fun _ k => k = n)
      (by first | exact .pure rfl | exact .liftOutcome fun _ _ => rfl) fun doc k _ hk => ?_
    subst hk
    refine .bind ofDocument_readBack fun o k _ ho => ?_
    rcases o with _ | t
    · exact .pure (.inl rfl)
    · exact .pure (.inr (ho t rfl))

/-- Reloading leaves a reachable region, under the settings it has: the region as it was when
the document gives none or the reading fails, or the region read back. -/
theorem Reachable.reload (h : Reachable s parent r n) {step : Value}
    (hdo : step.get? "do" = some (.str "reload")) {res : Except Failure (Outcome Value × Region)}
    (hrun : ((regionStep parent r step).run.run n).run = (res, n')) :
    Reachable (regionAfter r res).settings parent (regionAfter r res) n' := by
  obtain ⟨hle, hok⟩ := regionStep_reload hdo res n' hrun
  have hkept : Reachable r.settings parent r n' := by
    rw [h.sound.settings]
    exact h.shared hle
  rcases res with e | ⟨v, t⟩
  · exact hkept
  · rcases hok _ rfl with rfl | hread
    · exact hkept
    · exact ReadBack.reachable hread

end Request

end GammaFit
