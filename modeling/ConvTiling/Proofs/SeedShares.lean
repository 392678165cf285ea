import ConvTiling.Proofs.ArrayUse

/-!
# What a side is seeded with

Seeding serves the extents of a side one after the other and keeps what is left of its
length, which every extent divides by what it takes. Without that remainder, the share
of an extent is the length divided by the product of the shares before it, at most the
whole layer (`Extents.ShareInTurn`): to divide by one share after the other is to
divide by their product, as long as every one of them is at least `1`. And since what
is left never falls below `1`, the shares of a side together are at most its length
(`Extents.ShareInTurn.volume_le`).

The kernel is passed over (`Seeding.foldlM_serve_served`). An extent that is served
brings only the input along, so where no input is mapped onto the array nothing else
than its own turn sets it: the columns leave the shares of the rows alone, and what is
mapped onto neither has what the stripe had (`Tiling.seed_shares`).
-/

namespace ConvTiling

open Checked (bind_eq_ok_iff pure_eq_ok_iff)

variable {full tile tile' : Extents} {a : Accelerator} {length : Int} {ds : List Dim}
  {d : Dim}

/-! ## Sharing a length in turn -/

/-- To divide by one number after the other is to divide by their product. -/
theorem tdiv_tdiv_of_nonneg {n x y : Int} (hn : 0 ≤ n) (hx : 0 ≤ x) :
    (n.tdiv x).tdiv y = n.tdiv (x * y) := by
  rw [Int.tdiv_eq_ediv_of_nonneg hn, Int.tdiv_eq_ediv_of_nonneg hn,
    Int.tdiv_eq_ediv_of_nonneg (Int.ediv_nonneg hn hx), Int.ediv_ediv_of_nonneg hx]

namespace Extents

/-- **Some extents share a length in turn**: each of them has the length divided by the
product of those before it, at most the whole layer. -/
def ShareInTurn (tile full : Extents) (length : Int) (ds : List Dim) : Prop :=
  ∀ before d after, ds = before ++ d :: after →
    tile.get d = min (full.get d) (length.tdiv (tile.volume before))

theorem shareInTurn_nil (tile full : Extents) (length : Int) :
    tile.ShareInTurn full length [] := by
  intro before d after hsplit
  simp at hsplit

/-- **The first extent takes its share of the whole length**, and the others share the
quotient. -/
theorem shareInTurn_cons_iff (hlength : 0 ≤ length) (hd : 0 ≤ tile.get d) :
    tile.ShareInTurn full length (d :: ds) ↔
      tile.get d = min (full.get d) length
        ∧ tile.ShareInTurn full (length.tdiv (tile.get d)) ds := by
  constructor
  · intro h
    refine ⟨?_, fun before c after hsplit => ?_⟩
    · rw [h [] d ds rfl, volume_nil, Int.tdiv_one]
    · rw [tdiv_tdiv_of_nonneg hlength hd, ← volume_cons]
      exact h (d :: before) c after (by rw [hsplit, List.cons_append])
  · rintro ⟨hfirst, hrest⟩ before c after hsplit
    obtain ⟨rfl, hcons⟩ | ⟨before, rfl, htail⟩ := List.cons_eq_append_iff.1 hsplit
    · obtain ⟨rfl, -⟩ := List.cons.inj hcons
      rw [volume_nil, Int.tdiv_one, hfirst]
    · rw [volume_cons, ← tdiv_tdiv_of_nonneg hlength hd]
      exact hrest before c after htail

/-- Sharing in turn is read off the extents that share. -/
theorem ShareInTurn.congr (h : tile.ShareInTurn full length ds)
    (hsame : ∀ d ∈ ds, tile'.get d = tile.get d) : tile'.ShareInTurn full length ds := by
  intro before d after hsplit
  have hmem : ∀ c ∈ before, c ∈ ds := fun c hc =>
    hsplit ▸ List.mem_append_left _ hc
  have hd : d ∈ ds := hsplit ▸ List.mem_append_right _ List.mem_cons_self
  rw [hsame d hd, volume_congr fun c hc => hsame c (hmem c hc)]
  exact h before d after hsplit

/-- **The shares of a length** are together at most the length. -/
theorem ShareInTurn.volume_le (h : tile.ShareInTurn full length ds)
    (hone : ∀ d, 1 ≤ tile.get d) (hlength : 1 ≤ length) : tile.volume ds ≤ length := by
  induction ds generalizing length with
  | nil => exact hlength
  | cons d ds ih =>
    have hd := hone d
    obtain ⟨hfirst, hrest⟩ := (shareInTurn_cons_iff (by omega) (by omega)).1 h
    have hshare : tile.get d ≤ length := hfirst ▸ Int.min_le_right _ _
    -- a share is at most what is left, so that something is left by it
    have hleft : 1 ≤ length.tdiv (tile.get d) := by
      rw [Int.tdiv_eq_ediv_of_nonneg (by omega), Int.le_ediv_iff_mul_le (by omega), Int.one_mul]
      exact hshare
    calc tile.volume (d :: ds)
        = tile.get d * tile.volume ds := volume_cons tile d ds
      _ ≤ tile.get d * length.tdiv (tile.get d) :=
          Int.mul_le_mul_of_nonneg_left (ih hrest hleft) (by omega)
      _ ≤ length := Int.mul_tdiv_self_le (by omega)

end Extents

/-! ## Serving a side -/

/-- **The extents that a side is handed to**: those mapped onto it, the kernel aside. -/
def Accelerator.served (a : Accelerator) (s : Side) : List Dim :=
  (a.mapped s).filter (· ∉ Axis.kernelMap.dims)

/-- What is served was mapped, and is none of the kernel. -/
theorem Accelerator.mem_served {s : Side} :
    d ∈ a.served s ↔ d ∈ a.mapped s ∧ d ∉ Axis.kernelMap.dims := by
  rw [served, List.mem_filter, decide_eq_true_eq]

/-- **An extent that is none of the input** brings nothing along that is none of it
either. -/
theorem get_bringAlong {n : Int} {c : Dim} (hd : d ≠ .inputWidth ∧ d ≠ .inputHeight)
    (hc : c ≠ .inputWidth ∧ c ≠ .inputHeight) (run : bringAlong full tile d n = .ok tile') :
    tile'.get c = tile.get c := by
  cases d
  case inputWidth => exact absurd rfl hd.1
  case inputHeight => exact absurd rfl hd.2
  case outputWidth =>
    obtain ⟨m, -, run⟩ := bind_eq_ok_iff.1 run
    obtain rfl := pure_eq_ok_iff.1 run
    show (tile.set .inputWidth _).get c = tile.get c
    rw [Extents.get_set, if_neg hc.1.symm]
  case outputHeight =>
    obtain ⟨m, -, run⟩ := bind_eq_ok_iff.1 run
    obtain rfl := pure_eq_ok_iff.1 run
    show (tile.set .inputHeight _).get c = tile.get c
    rw [Extents.get_set, if_neg hc.2.symm]
  all_goals
    obtain rfl := Except.ok.inj run
    rfl

namespace Seeding

variable {s s' : Seeding}

/-- The kernel is passed over. -/
theorem serve_kernel (full : Extents) (s : Seeding) (hd : d ∈ Axis.kernelMap.dims) :
    Seeding.serve full s d = .ok s := by
  obtain rfl | rfl : d = .kernelWidth ∨ d = .kernelHeight := by
    simpa [Axis.dims] using hd
  · rfl
  · rfl

/-- **The kernel takes no part**: a side is served as if it were not mapped. -/
theorem foldlM_serve_served (full : Extents) (a : Accelerator) (side : Side) (s : Seeding) :
    (a.mapped side).foldlM (Seeding.serve full) s
      = (a.served side).foldlM (Seeding.serve full) s := by
  unfold Accelerator.served
  induction a.mapped side generalizing s with
  | nil => rfl
  | cons d ds ih =>
    by_cases hd : d ∈ Axis.kernelMap.dims
    · rw [List.filter_cons_of_neg (by simpa using hd), List.foldlM_cons, serve_kernel full s hd]
      exact ih s
    · rw [List.filter_cons_of_pos (by simpa using hd), List.foldlM_cons, List.foldlM_cons]
      exact congrArg (_ >>= ·) (funext ih)

/-- **An extent that is served** takes what is left, at most the whole layer, and leaves
the quotient. Beside it only the input can change. -/
theorem serve_share (hd : d ≠ .inputWidth ∧ d ≠ .inputHeight)
    (hkernel : d ∉ Axis.kernelMap.dims) (run : Seeding.serve full s d = .ok s') :
    s'.tile.get d = min (full.get d) s.left ∧ s'.left = s.left.tdiv (s'.tile.get d)
      ∧ ∀ c, c ≠ d → c ≠ .inputWidth ∧ c ≠ .inputHeight →
        s'.tile.get c = s.tile.get c := by
  unfold Seeding.serve at run
  split at run
  · exact absurd (by decide) hkernel
  · exact absurd (by decide) hkernel
  · obtain ⟨brought, hbrought, run⟩ := bind_eq_ok_iff.1 run
    obtain ⟨left, hleft, run⟩ := bind_eq_ok_iff.1 run
    obtain rfl := pure_eq_ok_iff.1 run
    obtain ⟨-, rfl, -⟩ := Signed.div_eq_ok_iff.1 hleft
    have htaken : (brought.set d (min s.left (full.get d))).get d
        = min s.left (full.get d) := by
      rw [Extents.get_set, if_pos rfl]
    refine ⟨?_, ?_, fun c hcd hc => ?_⟩
    · rw [htaken, Int.min_comm]
    · rw [htaken]
    · show (brought.set d _).get c = s.tile.get c
      rw [Extents.get_set, if_neg hcd.symm, get_bringAlong hd hc hbrought]

/-- **The extents that are served share what is left in turn.** No extent is set twice,
so each keeps its share to the end. -/
theorem Sound.shareInTurn (hs : s.Sound full length) (hfull : full.Valid) (hds : ds.Nodup)
    (hinput : ∀ d ∈ ds, d ≠ .inputWidth ∧ d ≠ .inputHeight)
    (hkernel : ∀ d ∈ ds, d ∉ Axis.kernelMap.dims)
    (run : ds.foldlM (Seeding.serve full) s = .ok s') :
    s'.Sound full length ∧ s'.tile.ShareInTurn full s.left ds
      ∧ ∀ c ∉ ds, c ≠ .inputWidth ∧ c ≠ .inputHeight → s'.tile.get c = s.tile.get c := by
  induction ds generalizing s with
  | nil =>
    obtain rfl := pure_eq_ok_iff.1 run
    exact ⟨hs, Extents.shareInTurn_nil _ _ _, fun _ _ _ => rfl⟩
  | cons d ds ih =>
    obtain ⟨s₁, hstep, hrest⟩ := Checked.foldlM_cons_eq_ok_iff.1 run
    obtain ⟨hd, hds⟩ := List.nodup_cons.1 hds
    obtain ⟨hdinput, hinput⟩ := List.forall_mem_cons.1 hinput
    obtain ⟨hdkernel, hkernel⟩ := List.forall_mem_cons.1 hkernel
    obtain ⟨htaken, hleft, hothers⟩ := serve_share hdinput hdkernel hstep
    obtain ⟨hs', hshares, hkept⟩ := ih (hs.serve hfull hstep) hds hinput hkernel hrest
    have hshare : s'.tile.get d = s₁.tile.get d := hkept d hd hdinput
    have hone := hs'.liesIn.one_le d
    have hpos := hs.one_le_left
    refine ⟨hs', (Extents.shareInTurn_cons_iff (by omega) (by omega)).2 ⟨?_, ?_⟩,
      fun c hc hcinput => ?_⟩
    · rw [hshare, htaken]
    · rw [hshare, ← hleft]
      exact hshares
    · obtain ⟨hcd, hc⟩ := not_or.1 (mt List.mem_cons.2 hc)
      rw [hkept c hc hcinput, hothers c hcd hcinput]

end Seeding

/-! ## The seed -/

/-- **The extents served by a side** share its length in turn, and no other extent
changes but the input. -/
theorem shareInTurn_seedSide {s : Side} (hfull : full.Valid) (ha : a.Valid)
    (hinput : a.MapsNoInput) (ht : tile.LiesIn full)
    (run : seedSide full a tile s = .ok tile') :
    tile'.LiesIn full ∧ tile'.ShareInTurn full (a.length s) (a.served s)
      ∧ ∀ c ∉ a.served s, c ≠ .inputWidth ∧ c ≠ .inputHeight →
        tile'.get c = tile.get c := by
  obtain ⟨served, hserved, run⟩ := bind_eq_ok_iff.1 run
  obtain rfl := pure_eq_ok_iff.1 run
  rw [Seeding.foldlM_serve_served] at hserved
  have hstart : (⟨tile, a.length s⟩ : Seeding).Sound full (a.length s) :=
    ⟨ht, ha.one_le_length s, Int.le_refl _⟩
  obtain ⟨hsound, hshares, hkept⟩ := hstart.shareInTurn hfull ((ha.nodup_mapped s).filter _)
    (fun d hd => hinput.ne_of_mem (Accelerator.mem_served.1 hd).1)
    (fun d hd => (Accelerator.mem_served.1 hd).2) hserved
  exact ⟨hsound.liesIn, hshares, hkept⟩

/-- Widening the input to the kernel changes the input alone. -/
theorem get_reachKernel (full tile : Extents) (hd : d ≠ .inputWidth ∧ d ≠ .inputHeight) :
    (reachKernel full tile).get d = tile.get d := by
  cases d with
  | inputWidth => exact absurd rfl hd.1
  | inputHeight => exact absurd rfl hd.2
  | _ => rfl

/-- **The tile that a search starts from**: the extents of either side share its length in
turn, and an extent that is not served has what the stripe has. -/
theorem shareInTurn_seedTile (hfull : full.Valid) (ha : a.Valid) (hinput : a.MapsNoInput)
    (run : seedTile full a = .ok tile) :
    ∃ start, stripe full = .ok start
      ∧ (∀ s, tile.ShareInTurn full (a.length s) (a.served s))
      ∧ ∀ d, (∀ s, d ∉ a.served s) → d ≠ .inputWidth ∧ d ≠ .inputHeight →
        tile.get d = start.get d := by
  obtain ⟨-, -, hapart⟩ := List.nodup_append.1 ha.2.2.2.2.2
  have hmapped : ∀ {s d}, d ∈ a.served s → d ∈ a.mapped s := fun hd =>
    (Accelerator.mem_served.1 hd).1
  obtain ⟨start, hstart, run⟩ := bind_eq_ok_iff.1 run
  obtain ⟨seeded, hsides, run⟩ := bind_eq_ok_iff.1 run
  obtain rfl := pure_eq_ok_iff.1 run
  obtain ⟨rows, hrows, hsides⟩ := Checked.foldlM_cons_eq_ok_iff.1 hsides
  obtain ⟨columns, hcolumns, hsides⟩ := Checked.foldlM_cons_eq_ok_iff.1 hsides
  obtain rfl := pure_eq_ok_iff.1 hsides
  obtain ⟨hin, hrowShares, hrowKept⟩ :=
    shareInTurn_seedSide hfull ha hinput (liesIn_stripe hfull hstart) hrows
  obtain ⟨-, hcolumnShares, hcolumnKept⟩ := shareInTurn_seedSide hfull ha hinput hin hcolumns
  refine ⟨start, hstart, fun s => ?_, fun d hd hne => ?_⟩
  · have hserved : seeded.ShareInTurn full (a.length s) (a.served s) := by
      cases s with
      | row =>
        -- the columns share no extent with the rows
        refine hrowShares.congr fun d hd => hcolumnKept d (fun hd' => ?_)
          (hinput.ne_of_mem (hmapped hd))
        exact hapart d (hmapped hd) d (hmapped hd') rfl
      | column => exact hcolumnShares
    exact hserved.congr fun d hd =>
      get_reachKernel full seeded (hinput.ne_of_mem (hmapped hd))
  · rw [get_reachKernel full seeded hne, hcolumnKept d (hd .column) hne,
      hrowKept d (hd .row) hne]

/-- **How seeding hands out the array.** Of the extents that are mapped
onto a side and none of the kernel, in the order of the mapping, each has the length of the
side divided by the product of those before it, at most the whole layer; so together they
are at least `1` and at most the length. A channel or the height of the output that is not
mapped is `1`, a width of the output that is not mapped is that of the layer, and so is
the kernel in any case. -/
theorem Tiling.seed_shares {t t' : Tiling} (ht : t.Valid) (ha : a.Valid)
    (hinput : a.MapsNoInput) (run : t.seed a = .ok t') :
    (∀ s before d after, a.served s = before ++ d :: after →
      t'.tile.get d = min (t.full.get d) ((a.length s).tdiv (t'.tile.volume before)))
    ∧ (∀ s, 1 ≤ t'.tile.volume (a.served s) ∧ t'.tile.volume (a.served s) ≤ a.length s)
    ∧ (∀ d ∈ [Dim.inputChannel, .outputChannel, .outputHeight], d ∉ a.mappedDims →
      t'.tile.get d = 1)
    ∧ (.outputWidth ∉ a.mappedDims → t'.tile.outputWidth = t.full.outputWidth)
    ∧ t'.tile.kernelWidth = t.full.kernelWidth
    ∧ t'.tile.kernelHeight = t.full.kernelHeight := by
  obtain ⟨tile, htile, run⟩ := bind_eq_ok_iff.1 run
  obtain ⟨unroll, -, run⟩ := bind_eq_ok_iff.1 run
  obtain rfl := pure_eq_ok_iff.1 run
  have hone := (liesIn_seedTile ht.1 ha.one_le_length htile).one_le
  obtain ⟨start, hstart, hshares, hkept⟩ := shareInTurn_seedTile ht.1 ha hinput htile
  obtain ⟨rows, -, hstart⟩ := bind_eq_ok_iff.1 hstart
  obtain rfl := pure_eq_ok_iff.1 hstart
  have hunmapped : ∀ d, d ∉ a.mappedDims → ∀ s, d ∉ a.served s := fun d hd s hs =>
    hd (Accelerator.mem_mappedDims (Accelerator.mem_served.1 hs).1)
  have hkernel : ∀ d ∈ Axis.kernelMap.dims, ∀ s, d ∉ a.served s := fun d hd s hs =>
    (Accelerator.mem_served.1 hs).2 hd
  refine ⟨hshares, fun s => ⟨?_, ?_⟩, fun d hd hfree => ?_, fun hfree => ?_, ?_, ?_⟩
  · exact Extents.one_le_volume hone _
  · exact (hshares s).volume_le hone (ha.one_le_length s)
  · have hstripe := hkept d (hunmapped d hfree)
    simp only [List.mem_cons, List.not_mem_nil, or_false] at hd
    obtain rfl | rfl | rfl := hd
    · exact hstripe (by decide)
    · exact hstripe (by decide)
    · exact hstripe (by decide)
  · exact hkept .outputWidth (hunmapped _ hfree) (by decide)
  · exact hkept .kernelWidth (hkernel _ (by decide)) (by decide)
  · exact hkept .kernelHeight (hkernel _ (by decide)) (by decide)

/-- Fifteen rows give seven to the output channels, all that the layer has, and two to the
height of the output, which leaves one of them idle. The kernel is mapped before both, and
takes nothing. -/
theorem Tiling.seed_shares_fifteenRows :
    let t : Tiling := .untiled ⟨2, 0, 0, 11, 9, 6, 3, 3, 5, 4, 7⟩
    let a : Accelerator := { Accelerator.simd8x8 with
      rows := 15, rowDims := [.kernelWidth, .outputChannel, .outputHeight]
      columns := 4, columnDims := [.inputChannel, .kernelHeight] }
    t.Valid ∧ a.Valid ∧ a.MapsNoInput ∧ ∃ t', t.seed a = .ok t'
      ∧ t'.tile.outputChannel = 7 ∧ t'.tile.outputHeight = 2 ∧ t'.tile.inputChannel = 4
      ∧ t'.tile.volume (a.served .row) ≤ 15 ∧ t'.tile.outputWidth = 5
      ∧ t'.tile.kernelWidth = 3 ∧ t'.tile.kernelHeight = 3 := by
  intro t a
  have ht : t.Valid := by decide
  have ha : a.Valid := by decide
  have hinput : a.MapsNoInput := by decide
  have hfull : t.full.Moderate := ⟨ht.1, by decide, by decide, by decide, by decide⟩
  obtain ⟨t', run⟩ : Checked.Answers (t.seed a) :=
    Tiling.answers_seed hfull ha.one_le_length fun s => by cases s <;> decide
  obtain ⟨hshares, hwithin, -, hwidth, hkernelWidth, hkernelHeight⟩ :=
    Tiling.seed_shares ht ha hinput run
  have hchannels : t'.tile.outputChannel = 7 :=
    hshares .row [] .outputChannel [.outputHeight] rfl
  have hheight := hshares .row [.outputChannel] .outputHeight [] rfl
  rw [Extents.volume_cons, Extents.volume_nil, Int.mul_one] at hheight
  have hinputs : t'.tile.inputChannel = 4 := hshares .column [] .inputChannel [] rfl
  refine ⟨ht, ha, hinput, t', run, hchannels, ?_, hinputs, (hwithin .row).2,
    hwidth (by decide), hkernelWidth, hkernelHeight⟩
  show t'.tile.get .outputHeight = 2
  rw [hheight, show t'.tile.get .outputChannel = 7 from hchannels]
  rfl

end ConvTiling
