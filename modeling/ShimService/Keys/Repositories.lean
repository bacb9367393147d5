import ShimService.Keys.CompoundKey

/-! The key schemas of the repositories. -/
namespace ShimService.Keys

def virtualHashKey : String := "hashKey"

def virtualRangeKey : String := "rangeKey"

def sequenceTable : VirtualTable := ⟨"a", by decide⟩
def sfdcSessionTable : VirtualTable := ⟨"b", by decide⟩
def userSessionTable : VirtualTable := ⟨"c", by decide⟩
def sessionContextTable : VirtualTable := ⟨"d", by decide⟩
def pushNotificationTable : VirtualTable := ⟨"e", by decide⟩
def resourceLockTable : VirtualTable := ⟨"f", by decide⟩
def pendingEventTable : VirtualTable := ⟨"g", by decide⟩
def workIdMapTable : VirtualTable := ⟨"h", by decide⟩
def pendingTenantEventTable : VirtualTable := ⟨"i", by decide⟩
def tenantContextTable : VirtualTable := ⟨"j", by decide⟩

/-- A repository that shares a table without a range key. -/
def awsVirtualTableRepo (table : VirtualTable) (hashKeyAttributes : List CompositeKeyPart) :
    RepoClass :=
  ⟨virtualHashKey, some hashKeyAttributes, none, none, some table⟩

/-- A repository that shares a table with one. -/
def awsVirtualRangeTableRepo (table : VirtualTable)
    (hashKeyAttributes rangeKeyAttributes : List CompositeKeyPart) : RepoClass :=
  ⟨virtualHashKey, some hashKeyAttributes, some virtualRangeKey, some rangeKeyAttributes,
    some table⟩

def awsSessionsRepo : CompoundKey :=
  RepoClass.createPrimaryKey ⟨"tenantId", none, some "sessionId", none, none⟩ (by decide)

def awsEventsRepo : CompoundKey :=
  RepoClass.createPrimaryKey ⟨"tenantId", none, some "seqNo", none, none⟩ (by decide)

def awsSequenceRepo : CompoundKey :=
  RepoClass.createPrimaryKey
    (awsVirtualTableRepo sequenceTable [⟨"tenantId", .int none⟩, ⟨"sequenceName", .string none⟩])
    (by decide)

def awsWorkIdRepo : CompoundKey :=
  RepoClass.createPrimaryKey
    (awsVirtualTableRepo workIdMapTable
      [⟨"tenantId", .int none⟩, ⟨"workTargetId", .string none⟩])
    (by decide)

def awsResourceLockRepo : CompoundKey :=
  RepoClass.createPrimaryKey
    (awsVirtualTableRepo resourceLockTable [⟨"resourceName", .string none⟩]) (by decide)

def awsTenantContextRepo : CompoundKey :=
  RepoClass.createPrimaryKey
    (awsVirtualTableRepo tenantContextTable
      [⟨"contextType", .string none⟩, ⟨"tenantId", .int none⟩])
    (by decide)

def awsSessionContextsRepo : CompoundKey :=
  RepoClass.createPrimaryKey
    (awsVirtualRangeTableRepo sessionContextTable [⟨"tenantId", .int none⟩]
      [⟨"sessionId", .string none⟩, ⟨"contextType", .string none⟩])
    (by decide)

def awsSfdcSessionsRepo : CompoundKey :=
  RepoClass.createPrimaryKey
    (awsVirtualRangeTableRepo sfdcSessionTable [⟨"tenantId", .int none⟩]
      [⟨"sessionId", .string none⟩])
    (by decide)

def awsUserSessionsRepo : CompoundKey :=
  RepoClass.createPrimaryKey
    (awsVirtualRangeTableRepo userSessionTable [⟨"tenantId", .int none⟩]
      [⟨"userId", .string none⟩])
    (by decide)

def awsPushNotificationsRepo : CompoundKey :=
  RepoClass.createPrimaryKey
    (awsVirtualRangeTableRepo pushNotificationTable
      [⟨"tenantId", .int none⟩, ⟨"sessionId", .string none⟩] [⟨"seqNo", .int (some 16)⟩])
    (by decide)

def awsPendingEventsRepo : CompoundKey :=
  RepoClass.createPrimaryKey
    (awsVirtualRangeTableRepo pendingEventTable [⟨"eventType", .string none⟩]
      [⟨"activeAt", .int (some 19)⟩, ⟨"tenantId", .int (some 12)⟩, ⟨"sessionId", .string none⟩])
    (by decide)

def awsPendingTenantEventRepo : CompoundKey :=
  RepoClass.createPrimaryKey
    (awsVirtualRangeTableRepo pendingTenantEventTable [⟨"eventType", .string none⟩]
      [⟨"tenantId", .int (some 12)⟩])
    (by decide)

/-- The repositories that share tables with others. -/
def virtualTables : List VirtualTable :=
  [sequenceTable, sfdcSessionTable, userSessionTable, sessionContextTable,
    pushNotificationTable, resourceLockTable, pendingEventTable, workIdMapTable,
    pendingTenantEventTable, tenantContextTable]

theorem tableType_nodup : (virtualTables.map VirtualTable.tableType).Nodup := by decide

end ShimService.Keys
