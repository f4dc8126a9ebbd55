import Mathlib.Data.List.Sort
import Mathlib.Algebra.Order.Ring.Nat

/-!
# Fields

The fields of serialized objects, each with a type and a number, the table of those that are known, and the templates
of inner objects. The order of fields is that of their codes.
-/

namespace Rippled.Protocol

/-- `SerializedTypeID`, without the two types that no field has. -/
inductive SerializedTypeID where
  | uint16
  | uint32
  | uint64
  | uint128
  | uint256
  | amount
  | vl
  | account
  | number
  | int32
  | int64
  | object
  | array
  | uint8
  | uint160
  | pathSet
  | vector256
  | uint96
  | uint192
  | uint384
  | uint512
  | issue
  | currency
  | transaction
  | ledgerEntry
  | validation
  | metadata
  deriving DecidableEq

namespace SerializedTypeID

def code : SerializedTypeID → Nat
  | uint16 => 1
  | uint32 => 2
  | uint64 => 3
  | uint128 => 4
  | uint256 => 5
  | amount => 6
  | vl => 7
  | account => 8
  | number => 9
  | int32 => 10
  | int64 => 11
  | object => 14
  | array => 15
  | uint8 => 16
  | uint160 => 17
  | pathSet => 18
  | vector256 => 19
  | uint96 => 20
  | uint192 => 21
  | uint384 => 22
  | uint512 => 23
  | issue => 24
  | currency => 26
  | transaction => 10001
  | ledgerEntry => 10002
  | validation => 10003
  | metadata => 10004

/-- All types, to look one up by its code. -/
def all : List SerializedTypeID :=
  [uint16, uint32, uint64, uint128, uint256, amount, vl, account, number, int32, int64, object,
    array, uint8, uint160, pathSet,
    vector256, uint96, uint192, uint384, uint512, issue, currency, transaction, ledgerEntry, validation, metadata]

theorem code_injective {a b : SerializedTypeID} (h : a.code = b.code) : a = b := by
  have hfind : ∀ t : SerializedTypeID, all.find? (·.code == t.code) = some t := by
    intro t
    cases t <;> rfl
  have ha := hfind a
  rw [h, hfind b] at ha
  exact (Option.some.inj ha).symm

end SerializedTypeID

/-- `SField`: there is one for each type and number. -/
structure SField where
  fieldType : SerializedTypeID
  fieldValue : Fin 65536
  deriving DecidableEq

namespace SField

/-- `fieldCode`. -/
def code (f : SField) : Nat := f.fieldType.code * 65536 + f.fieldValue

theorem code_injective {f g : SField} (h : f.code = g.code) : f = g := by
  obtain ⟨ft, fv⟩ := f
  obtain ⟨gt, gv⟩ := g
  have hg := gv.isLt
  unfold code at h
  dsimp only at h
  obtain rfl : ft = gt := SerializedTypeID.code_injective (by omega)
  obtain rfl : fv = gv := Fin.ext (by omega)
  rfl

def isBinary (f : SField) : Bool := f.fieldValue.val < 256

def isDiscardable (f : SField) : Bool := f.fieldValue.val > 256

def sfAccount : SField := ⟨.account, 1⟩
def sfSignerWeight : SField := ⟨.uint16, 3⟩
def sfWalletLocator : SField := ⟨.uint256, 7⟩
def sfSigningPubKey : SField := ⟨.vl, 3⟩
def sfTxnSignature : SField := ⟨.vl, 4⟩
def sfAmendment : SField := ⟨.uint256, 19⟩
def sfCloseTime : SField := ⟨.uint32, 7⟩
def sfPublicKey : SField := ⟨.vl, 1⟩
def sfFirstLedgerSequence : SField := ⟨.uint32, 26⟩
def sfNFTokenID : SField := ⟨.uint256, 10⟩
def sfURI : SField := ⟨.vl, 5⟩
def sfTradingFee : SField := ⟨.uint16, 5⟩
def sfVoteWeight : SField := ⟨.uint32, 48⟩
def sfExpiration : SField := ⟨.uint32, 10⟩
def sfDiscountedFee : SField := ⟨.uint16, 6⟩
def sfPrice : SField := ⟨.amount, 28⟩
def sfAuthAccounts : SField := ⟨.array, 25⟩
def sfBaseAsset : SField := ⟨.currency, 1⟩
def sfQuoteAsset : SField := ⟨.currency, 2⟩
def sfAssetPrice : SField := ⟨.uint64, 23⟩
def sfScale : SField := ⟨.uint8, 4⟩
def sfIssuer : SField := ⟨.account, 4⟩
def sfCredentialType : SField := ⟨.vl, 31⟩
def sfPermissionValue : SField := ⟨.uint32, 52⟩
def sfSigners : SField := ⟨.array, 3⟩
def sfBookDirectory : SField := ⟨.uint256, 16⟩
def sfBookNode : SField := ⟨.uint64, 3⟩
def sfSignerEntry : SField := ⟨.object, 11⟩
def sfSigner : SField := ⟨.object, 16⟩
def sfMajority : SField := ⟨.object, 18⟩
def sfDisabledValidator : SField := ⟨.object, 19⟩
def sfNFToken : SField := ⟨.object, 12⟩
def sfVoteEntry : SField := ⟨.object, 25⟩
def sfAuctionSlot : SField := ⟨.object, 26⟩
def sfAuthAccount : SField := ⟨.object, 27⟩
def sfPriceData : SField := ⟨.object, 32⟩
def sfSignature : SField := ⟨.vl, 6⟩
def sfMasterSignature : SField := ⟨.vl, 18⟩
def sfCredential : SField := ⟨.object, 33⟩
def sfPermission : SField := ⟨.object, 15⟩
def sfBatchSigner : SField := ⟨.object, 35⟩
def sfBook : SField := ⟨.object, 36⟩
def sfCounterpartySignature : SField := ⟨.object, 37⟩
def sfSponsorSignature : SField := ⟨.object, 38⟩
def sfPaths : SField := ⟨.pathSet, 1⟩

end SField

/-! ## Templates -/

inductive SOEStyle where
  | soeRequired
  | soeOptional
  | soeDefault
  deriving DecidableEq

structure SOElement where
  sField : SField
  style : SOEStyle
  deriving DecidableEq

/-- `SOTemplate`. Its constructor throws when a field is there twice. -/
structure SOTemplate where
  elements : List SOElement
  nodup : (elements.map (·.sField)).Nodup

/-- The tables that decoding depends on: the fields that are known, with their names, and the templates of inner
objects. -/
structure Formats where
  knownCodeToField : List (SField × String)
  innerObjects : List (SField × SOTemplate)

namespace Formats

variable (formats : Formats)

/-- `SField::getField`, with `none` for `sfInvalid`. -/
def getField (type value : Nat) : Option SField :=
  (formats.knownCodeToField.find? fun f => f.1.fieldType.code = type ∧ f.1.fieldValue.val = value).map (·.1)

def getName (f : SField) : String := ((formats.knownCodeToField.find? (·.1 = f)).map (·.2)).getD ""

def findSOTemplateBySField (f : SField) : Option SOTemplate := (formats.innerObjects.find? (·.1 = f)).map (·.2)

/-- A field that is in the table and can be in serialized objects, where two codes are taken by the marks for the end of
an object and of an array. -/
def Known (f : SField) : Prop :=
  formats.getField f.fieldType.code f.fieldValue.val = some f ∧ f.fieldType.code < 256 ∧ 0 < f.fieldValue.val ∧
    f.isBinary = true ∧ ¬ (f.fieldType = .object ∧ f.fieldValue.val = 1) ∧
      ¬ (f.fieldType = .array ∧ f.fieldValue.val = 1)

theorem getField_eq_some {type value : Nat} {f : SField} (h : formats.getField type value = some f) :
    f.fieldType.code = type ∧ f.fieldValue.val = value := by
  unfold getField at h
  obtain ⟨entry, hfind, rfl⟩ := Option.map_eq_some_iff.1 h
  simpa using List.find?_some hfind

end Formats

/-! ## The tables -/

def named (type : SerializedTypeID) (fields : List (Fin 65536 × String)) : List (SField × String) :=
  fields.map fun f => (⟨type, f.1⟩, f.2)

/-- The fields of `sfields.macro`, and two that are not for serialized objects. -/
def knownFields : List (SField × String) :=
    named .ledgerEntry [(257, "LedgerEntry")] ++
    named .transaction [(257, "Transaction")] ++
    named .validation [(257, "Validation")] ++
    named .metadata [(257, "Metadata")] ++
    named .uint8 [(1, "CloseResolution"), (2, "Method"), (3, "TransactionResult"), (4, "Scale"), (5, "AssetScale"),
      (6, "LEVersion"), (16, "TickSize"), (17, "UNLModifyDisabling"), (20, "WithdrawalPolicy"),
      (21, "ContractResult"), (22, "VaultKind")] ++
    named .uint16 [(1, "LedgerEntryType"), (2, "TransactionType"), (3, "SignerWeight"),
      (4, "TransferFee"), (5, "TradingFee"),
      (6, "DiscountedFee"), (16, "Version"), (21, "LedgerFixType"), (22, "ManagementFeeRate")] ++
    named .uint32 [(1, "NetworkID"), (2, "Flags"), (3, "SourceTag"), (4, "Sequence"), (5, "PreviousTxnLgrSeq"),
      (6, "LedgerSequence"), (7, "CloseTime"), (8, "ParentCloseTime"), (9, "SigningTime"), (10, "Expiration"),
      (11, "TransferRate"), (12, "WalletSize"), (13, "OwnerCount"), (14, "DestinationTag"), (15, "LastUpdateTime"),
      (16, "HighQualityIn"), (17, "HighQualityOut"), (18, "LowQualityIn"), (19, "LowQualityOut"),
      (20, "QualityIn"), (21, "QualityOut"), (22, "StampEscrow"), (23, "BondAmount"), (24, "LoadFee"),
      (25, "OfferSequence"), (26, "FirstLedgerSequence"), (27, "LastLedgerSequence"), (28, "TransactionIndex"),
      (29, "OperationLimit"), (30, "ReferenceFeeUnits"), (31, "ReserveBase"), (32, "ReserveIncrement"),
      (33, "SetFlag"), (34, "ClearFlag"), (35, "SignerQuorum"), (36, "CancelAfter"), (37, "FinishAfter"),
      (38, "SignerListID"), (39, "SettleDelay"), (40, "TicketCount"), (41, "TicketSequence"), (42, "NFTokenTaxon"),
      (43, "MintedNFTokens"), (44, "BurnedNFTokens"), (48, "VoteWeight"), (50, "FirstNFTokenSequence"),
      (51, "OracleDocumentID"), (52, "PermissionValue"), (53, "ImmutableFlags"), (54, "StartDate"),
      (55, "PaymentInterval"), (56, "GracePeriod"), (57, "PreviousPaymentDueDate"), (58, "NextPaymentDueDate"),
      (59, "PaymentRemaining"), (60, "PaymentTotal"), (61, "LoanSequence"), (62, "CoverRateMinimum"),
      (63, "CoverRateLiquidation"), (64, "OverpaymentFee"), (65, "InterestRate"), (66, "LateInterestRate"),
      (67, "CloseInterestRate"), (68, "OverpaymentInterestRate"), (69, "ConfidentialBalanceVersion"),
      (70, "SponsoredOwnerCount"), (71, "SponsoringOwnerCount"), (72, "SponsoringAccountCount"),
      (73, "RemainingOwnerCount"), (74, "SponsorFlags"), (75, "SubscriptionDate"), (76, "RedemptionDate"),
      (77, "IssuerKeyEpoch"), (78, "AuditorKeyEpoch"), (79, "IssuerKeyMirrorEpoch"), (80, "AuditorKeyMirrorEpoch"),
      (81, "GasLimit"), (82, "BytecodeSizeLimit"), (83, "GasPrice"), (84, "Gas"), (85, "GasUsed")] ++
    named .uint64 [(1, "IndexNext"), (2, "IndexPrevious"), (3, "BookNode"), (4, "OwnerNode"), (5, "BaseFee"),
      (6, "ExchangeRate"), (7, "LowNode"), (8, "HighNode"), (9, "DestinationNode"), (10, "Cookie"),
      (11, "ServerVersion"), (12, "NFTokenOfferNode"), (13, "EmitBurden"), (19, "ReferenceCount"),
      (23, "AssetPrice"), (24, "MaximumAmount"), (25, "OutstandingAmount"), (26, "MPTAmount"), (27, "IssuerNode"),
      (28, "SubjectNode"), (29, "LockedAmount"), (30, "VaultNode"), (31, "LoanBrokerNode"),
      (32, "ConfidentialOutstandingAmount"), (33, "SponseeNode")] ++
    named .uint128 [(1, "EmailHash")] ++
    named .uint160 [(1, "TakerPaysCurrency"), (2, "TakerPaysIssuer"),
      (3, "TakerGetsCurrency"), (4, "TakerGetsIssuer")] ++
    named .uint192 [(1, "MPTokenIssuanceID"), (2, "ShareMPTID"), (3, "TakerPaysMPT"), (4, "TakerGetsMPT")] ++
    named .uint256 [(257, "hash"), (258, "index"), (1, "LedgerHash"), (2, "ParentHash"), (3, "TransactionHash"),
      (4, "AccountHash"), (5, "PreviousTxnID"), (6, "LedgerIndex"), (7, "WalletLocator"), (8, "RootIndex"),
      (9, "AccountTxnID"), (10, "NFTokenID"), (11, "EmitParentTxnID"), (12, "EmitNonce"), (13, "EmitHookHash"),
      (14, "AMMID"), (16, "BookDirectory"), (17, "InvoiceID"), (18, "Nickname"), (19, "Amendment"), (21, "Digest"),
      (22, "Channel"), (23, "ConsensusHash"), (24, "CheckID"), (25, "ValidatedHash"), (26, "PreviousPageMin"),
      (27, "NextPageMin"), (28, "NFTokenBuyOffer"), (29, "NFTokenSellOffer"), (34, "DomainID"), (35, "VaultID"),
      (36, "ParentBatchID"), (37, "LoanBrokerID"), (38, "LoanID"), (39, "ReferenceHolding"),
      (40, "BlindingFactor"), (41, "ObjectID"), (42, "ProposalID")] ++
    named .number [(1, "Number"), (2, "AssetsAvailable"), (3, "AssetsMaximum"),
      (4, "AssetsTotal"), (5, "LossUnrealized"),
      (6, "DebtTotal"), (7, "DebtMaximum"), (8, "CoverAvailable"), (9, "LoanOriginationFee"),
      (10, "LoanServiceFee"), (11, "LatePaymentFee"), (12, "ClosePaymentFee"), (13, "PrincipalOutstanding"),
      (14, "PrincipalRequested"), (15, "TotalValueOutstanding"), (16, "PeriodicPayment"),
      (17, "ManagementFeeOutstanding"), (18, "YieldUnrealized"), (19, "AssetsDeployed")] ++
    named .int32 [(1, "LoanScale"), (2, "RemainingOwnerCountDelta"), (3, "VMReturnCode")] ++
    named .amount [(1, "Amount"), (2, "Balance"), (3, "LimitAmount"), (4, "TakerPays"),
      (5, "TakerGets"), (6, "LowLimit"),
      (7, "HighLimit"), (8, "Fee"), (9, "SendMax"), (10, "DeliverMin"), (11, "Amount2"), (12, "BidMin"),
      (13, "BidMax"), (16, "MinimumOffer"), (17, "RippleEscrow"), (18, "DeliveredAmount"),
      (19, "NFTokenBrokerFee"), (22, "BaseFeeDrops"), (23, "ReserveBaseDrops"), (24, "ReserveIncrementDrops"),
      (25, "LPTokenOut"), (26, "LPTokenIn"), (27, "EPrice"), (28, "Price"), (31, "LPTokenBalance"),
      (32, "FeeAmount"), (33, "MaxFee"), (34, "FeeAmountDelta")] ++
    named .vl [(1, "PublicKey"), (2, "MessageKey"), (3, "SigningPubKey"), (4, "TxnSignature"),
      (5, "URI"), (6, "Signature"),
      (7, "Domain"), (8, "FundCode"), (9, "RemoveCode"), (10, "ExpireCode"), (11, "CreateCode"), (12, "MemoType"),
      (13, "MemoData"), (14, "MemoFormat"), (16, "Fulfillment"), (17, "Condition"), (18, "MasterSignature"),
      (19, "UNLModifyValidator"), (20, "ValidatorToDisable"), (21, "ValidatorToReEnable"), (26, "DIDDocument"),
      (27, "Data"), (28, "AssetClass"), (29, "Provider"), (30, "MPTokenMetadata"), (31, "CredentialType"),
      (32, "ConfidentialBalanceInbox"), (33, "ConfidentialBalanceSpending"), (34, "IssuerEncryptedBalance"),
      (35, "IssuerEncryptionKey"), (36, "HolderEncryptionKey"), (37, "ZKProof"), (38, "HolderEncryptedAmount"),
      (39, "IssuerEncryptedAmount"), (40, "SenderEncryptedAmount"), (41, "DestinationEncryptedAmount"),
      (42, "AuditorEncryptedBalance"), (43, "AuditorEncryptedAmount"), (44, "AuditorEncryptionKey"),
      (45, "AmountCommitment"), (46, "BalanceCommitment"), (47, "Bytecode"), (48, "RecoveryKey"),
      (49, "InitialIssuerEncryptionKey"), (50, "IssuerMirrorEncryptionKey")] ++
    named .account [(1, "Account"), (2, "Owner"), (3, "Destination"), (4, "Issuer"),
      (5, "Authorize"), (6, "Unauthorize"),
      (8, "RegularKey"), (9, "NFTokenMinter"), (10, "EmitCallback"), (11, "Holder"), (12, "Delegate"),
      (24, "Subject"), (25, "Borrower"), (26, "Counterparty"), (27, "Sponsor"), (28, "HighSponsor"),
      (29, "LowSponsor"), (30, "CounterpartySponsor"), (31, "Sponsee"), (32, "SigningFor")] ++
    named .vector256 [(1, "Indexes"), (2, "Hashes"), (3, "Amendments"), (4, "NFTokenOffers"), (5, "CredentialIDs")] ++
    named .pathSet [(1, "Paths")] ++
    named .currency [(1, "BaseAsset"), (2, "QuoteAsset")] ++
    named .issue [(3, "Asset"), (4, "Asset2")] ++
    named .object [(2, "TransactionMetaData"), (3, "CreatedNode"), (4, "DeletedNode"), (5, "ModifiedNode"),
      (6, "PreviousFields"), (7, "FinalFields"), (8, "NewFields"), (9, "TemplateEntry"), (10, "Memo"),
      (11, "SignerEntry"), (12, "NFToken"), (13, "EmitDetails"), (15, "Permission"), (16, "Signer"),
      (18, "Majority"), (19, "DisabledValidator"), (25, "VoteEntry"), (26, "AuctionSlot"), (27, "AuthAccount"),
      (32, "PriceData"), (33, "Credential"), (34, "RawTransaction"), (35, "BatchSigner"), (36, "Book"),
      (37, "CounterpartySignature"), (38, "SponsorSignature"), (39, "ProposedTransaction")] ++
    named .array [(3, "Signers"), (4, "SignerEntries"), (5, "Template"), (6, "Necessary"), (7, "Sufficient"),
      (8, "AffectedNodes"), (9, "Memos"), (10, "NFTokens"), (12, "VoteSlots"), (13, "AdditionalBooks"),
      (16, "Majorities"), (17, "DisabledValidators"), (24, "PriceDataSeries"), (25, "AuthAccounts"),
      (26, "AuthorizeCredentials"), (27, "UnauthorizeCredentials"), (28, "AcceptedCredentials"),
      (29, "Permissions"), (30, "RawTransactions"), (31, "BatchSigners")]

open SField in
def innerObjectFormats : List (SField × SOTemplate) := [
    (sfSignerEntry, ⟨[⟨sfAccount, .soeRequired⟩, ⟨sfSignerWeight, .soeRequired⟩,
      ⟨sfWalletLocator, .soeOptional⟩], by decide⟩),
    (sfSigner, ⟨[⟨sfAccount, .soeRequired⟩, ⟨sfSigningPubKey, .soeRequired⟩,
      ⟨sfTxnSignature, .soeRequired⟩], by decide⟩),
    (sfMajority, ⟨[⟨sfAmendment, .soeRequired⟩, ⟨sfCloseTime, .soeRequired⟩], by decide⟩),
    (sfDisabledValidator, ⟨[⟨sfPublicKey, .soeRequired⟩, ⟨sfFirstLedgerSequence, .soeRequired⟩], by decide⟩),
    (sfNFToken, ⟨[⟨sfNFTokenID, .soeRequired⟩, ⟨sfURI, .soeOptional⟩], by decide⟩),
    (sfVoteEntry, ⟨[⟨sfAccount, .soeRequired⟩, ⟨sfTradingFee, .soeDefault⟩, ⟨sfVoteWeight, .soeRequired⟩], by decide⟩),
    (sfAuctionSlot, ⟨[⟨sfAccount, .soeRequired⟩, ⟨sfExpiration, .soeRequired⟩, ⟨sfDiscountedFee, .soeDefault⟩,
      ⟨sfPrice, .soeRequired⟩, ⟨sfAuthAccounts, .soeOptional⟩], by decide⟩),
    (sfAuthAccount, ⟨[⟨sfAccount, .soeRequired⟩], by decide⟩),
    (sfPriceData, ⟨[⟨sfBaseAsset, .soeRequired⟩, ⟨sfQuoteAsset, .soeRequired⟩, ⟨sfAssetPrice, .soeOptional⟩,
      ⟨sfScale, .soeDefault⟩], by decide⟩),
    (sfCredential, ⟨[⟨sfIssuer, .soeRequired⟩, ⟨sfCredentialType, .soeRequired⟩], by decide⟩),
    (sfPermission, ⟨[⟨sfPermissionValue, .soeRequired⟩], by decide⟩),
    (sfBatchSigner, ⟨[⟨sfAccount, .soeRequired⟩, ⟨sfSigningPubKey, .soeOptional⟩, ⟨sfTxnSignature, .soeOptional⟩,
      ⟨sfSigners, .soeOptional⟩], by decide⟩),
    (sfBook, ⟨[⟨sfBookDirectory, .soeRequired⟩, ⟨sfBookNode, .soeRequired⟩], by decide⟩),
    (sfCounterpartySignature, ⟨[⟨sfSigningPubKey, .soeOptional⟩, ⟨sfTxnSignature, .soeOptional⟩,
      ⟨sfSigners, .soeOptional⟩], by decide⟩),
    (sfSponsorSignature, ⟨[⟨sfSigningPubKey, .soeOptional⟩, ⟨sfTxnSignature, .soeOptional⟩,
      ⟨sfSigners, .soeOptional⟩], by decide⟩)]

def protocolFormats : Formats := ⟨knownFields, innerObjectFormats⟩

end Rippled.Protocol
