import GoXrpl.Engine.Impl.Apply

open State Program Prog.All Access

namespace State

variable {Blob : Type}

namespace Access

theorem read_keepsDrops (k : Keylet) : (read k : TableProg Blob Error _).All KeepsDrops :=
  ⟨trivial, fun _ => ofExcept _⟩

theorem readBelow_keepsDrops (k : Keylet) : (readBelow k : TableProg Blob Error _).All KeepsDrops :=
  ⟨trivial, fun _ => ofExcept _⟩

theorem update_keepsDrops (k : Keylet) (data : Blob) : (update k data).All KeepsDrops :=
  ⟨trivial, fun _ => ofError _⟩

theorem erase_keepsDrops (k : Keylet) : (erase k : TableProg Blob Error _).All KeepsDrops :=
  ⟨trivial, fun _ => ofError _⟩

end Access

theorem removePage.eraseRoot_keepsDrops (keepRoot : Bool) (prevPageKeylet : Keylet)
    (prev : DirectoryNode) (prevPage nextPage : UInt64)
    : (removePage.eraseRoot keepRoot prevPageKeylet prev prevPage nextPage
        : TableProg Blob Error _).All Access.KeepsDrops := by
  unfold removePage.eraseRoot
  split
  . apply bind (erase_keepsDrops _)
    intro _
    trivial
  . trivial

variable [Records Blob]

theorem updateNode_keepsDrops (k : Keylet) (node : DirectoryNode)
    : (updateNode k node : TableProg Blob Error _).All Access.KeepsDrops := by
  apply bind (ofOption _ _)
  intro data
  apply update_keepsDrops

variable [Sha512Half]

theorem removeFromRoot_keepsDrops (directory : Keylet) (node : DirectoryNode) (keepRoot : Bool)
    : (removeFromRoot directory node keepRoot : TableProg Blob Error _).All Access.KeepsDrops := by
  unfold removeFromRoot
  dsimp only
  split
  . trivial
  split
  . trivial
  split
  . apply bind ((read_keepsDrops _).mapError _)
    intro lastPageData
    apply bind (ofOption _ _)
    intro lastPage
    split
    . apply Prog.All.bind (updateNode_keepsDrops _ _)
      intro _
      apply Prog.All.bind (erase_keepsDrops _)
      intro _
      split
      . trivial
      apply bind (erase_keepsDrops _)
      intro _
      trivial
    apply Prog.All.bind (updateNode_keepsDrops _ _)
    intro _
    trivial
  split
  . apply Prog.All.bind (updateNode_keepsDrops _ _)
    intro _
    trivial
  apply bind (erase_keepsDrops _)
  intro _
  trivial

theorem removePage.finish_keepsDrops (directory : Keylet) (keepRoot : Bool)
    (prevPageKeylet nextPageKeylet : Keylet) (prev next : DirectoryNode) (prevPage nextPage : UInt64)
    : (removePage.finish directory keepRoot prevPageKeylet nextPageKeylet prev next prevPage nextPage
        : TableProg Blob Error _).All Access.KeepsDrops := by
  unfold removePage.finish
  split
  . apply bind (erase_keepsDrops _)
    intro _
    apply Prog.All.bind (updateNode_keepsDrops _ _)
    intro _
    apply Prog.All.bind (read_keepsDrops _)
    intro rootData
    apply bind (ofOption _ _)
    intro root
    apply Prog.All.bind (updateNode_keepsDrops _ _)
    intro _
    apply removePage.eraseRoot_keepsDrops
  . apply removePage.eraseRoot_keepsDrops

theorem removePage_keepsDrops (directory : Keylet) (page : UInt64) (node : DirectoryNode)
    (keepRoot : Bool)
    : (removePage directory page node keepRoot : TableProg Blob Error _).All Access.KeepsDrops := by
  unfold removePage
  dsimp only
  split
  . trivial
  split
  . trivial
  apply bind ((read_keepsDrops _).mapError _)
  intro prevPageData
  apply bind (ofOption _ _)
  intro prev
  split
  . apply Prog.All.bind (updateNode_keepsDrops _ _)
    intro _
    apply Prog.All.bind (erase_keepsDrops _)
    intro _
    apply removePage.finish_keepsDrops
  apply bind ((read_keepsDrops _).mapError _)
  intro nextPageData
  apply bind (ofOption _ _)
  intro next
  apply Prog.All.bind (updateNode_keepsDrops _ _)
  intro _
  apply Prog.All.bind (updateNode_keepsDrops _ _)
  intro _
  apply bind (erase_keepsDrops _)
  intro _
  apply removePage.finish_keepsDrops

theorem dirRemove_keepsDrops (directory : Keylet) (page : UInt64) (itemKey : Hash256) (keepRoot : Bool)
    : (dirRemove directory page itemKey keepRoot : TableProg Blob Error _).All Access.KeepsDrops := by
  apply bind (read_keepsDrops _)
  intro pageData
  split
  . trivial
  apply bind (ofOption _ _)
  intro node
  split
  . trivial
  dsimp only
  split
  . apply Prog.All.bind (updateNode_keepsDrops _ _)
    intro _
    trivial
  split
  . apply removeFromRoot_keepsDrops
  . apply removePage_keepsDrops

end State

namespace Engine

open Ter

variable {Blob : Type} [Records Blob]

theorem writeAccount_keepsDrops (st : ApplyState Blob) (account : AccountRoot)
    : (writeAccount st account).All Access.KeepsDrops := by
  apply bind (ofOption _ _)
  intro data
  exact (update_keepsDrops _ _).mapError _

theorem feePayerBalanceAndSpendable_keepsDrops (config : Config) (payer : FeePayer) (source : AccountRoot)
    : (feePayerBalanceAndSpendable config payer source : TableProg Blob Result _).All
        Access.KeepsDrops := by
  unfold feePayerBalanceAndSpendable
  split
  . trivial
  apply bind ((readBelow_keepsDrops _).mapError _)
  intro data
  split
  . trivial
  split
  . apply bind (ofOption _ _)
    intro sponsorship
    trivial
  apply bind (ofOption _ _)
  intro account
  split
  . apply bind (ofOption _ _)
    intro reserve
    trivial
  . trivial

theorem chargeFeePayer_keepsDrops (payer : FeePayer) (balance fee : UInt64)
    : (chargeFeePayer payer balance fee : TableProg Blob Result _).All Access.KeepsDrops := by
  unfold chargeFeePayer
  apply bind ((readBelow_keepsDrops _).mapError _)
  intro data
  apply bind (ofOption _ _)
  intro data
  apply bind (ofOption _ _)
  intro updated
  exact (update_keepsDrops _ _).mapError _

theorem payExternalFeeOnTable_keepsDrops (config : Config) (st : ApplyState Blob) (recovery : Bool)
    : (payExternalFeeOnTable config st recovery).All Access.KeepsDrops := by
  unfold payExternalFeeOnTable
  split
  . trivial
  apply Prog.All.bind ((feePayerBalanceAndSpendable_keepsDrops _ _ _).mapError _)
  intro funds
  dsimp only
  split
  . trivial
  split
  . trivial
  apply Prog.All.bind ((chargeFeePayer_keepsDrops _ _ _).mapError _)
  intro _
  trivial

variable [Sha512Half]

theorem eraseTicketEntry_keepsDrops (accountID : AccountID) (ticketSequence : UInt32)
    : (eraseTicketEntry accountID ticketSequence : TableProg Blob Result _).All Access.KeepsDrops := by
  apply bind ((read_keepsDrops _).mapError _)
  intro ticketData
  apply bind (ofOption _ _)
  intro ticketData
  apply bind (ofOption _ _)
  intro ticketOwnerNode
  apply Prog.All.bind ((dirRemove_keepsDrops _ _ _ _).mapError _)
  intro success
  split
  . trivial
  . exact (erase_keepsDrops _).mapError _

theorem reset_keepsDrops (config : Config) (st : ApplyState Blob)
    : (reset config st).All Access.KeepsDrops := by
  apply Prog.All.bind
  . unfold consumeTicketForRecovery
    split
    . trivial
    . exact (eraseTicketEntry_keepsDrops _ _).mapError _
  intro _
  apply bind (ofOption _ _)
  intro account
  apply Prog.All.bind
  . apply Prog.All.bind ((writeAccount_keepsDrops _ _).mapError _)
    intro _
    trivial
  intro chargedFee
  apply payExternalFeeOnTable_keepsDrops

theorem chargeBeforeApply_keepsDrops (config : Config) (st : ApplyState Blob)
    : (chargeBeforeApply config st).All Access.KeepsDrops := by
  apply Prog.All.bind
  . unfold applyPreApplyAccountChanges
    apply Prog.All.bind (writeAccount_keepsDrops _ _)
    intro _
    trivial
  intro account
  apply Prog.All.bind ((payExternalFeeOnTable_keepsDrops _ _ _).mapError _)
  intro chargedFee
  apply Prog.All.bind
  . unfold consumeTicket
    split
    . trivial
    apply Prog.All.bind (eraseTicketEntry_keepsDrops _ _)
    intro _
    apply Prog.All.bind (writeAccount_keepsDrops _ _)
    intro _
    trivial
  intro account
  trivial

end Engine
