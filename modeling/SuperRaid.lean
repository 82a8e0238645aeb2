import SuperRaid.HashRing
import SuperRaid.HashRingConsumer
import SuperRaid.HashRingStatus
import SuperRaid.HashRingDigest
import SuperRaid.HashRingSlots
import SuperRaid.LockOrder
import SuperRaid.FatGate
import SuperRaid.FatGateRules
import SuperRaid.FatGateOrder
import SuperRaid.FatGateGrip
import SuperRaid.FatGateBalance
import SuperRaid.FatGatePermanent
import SuperRaid.FatWriteback
import SuperRaid.FatSnapshot
import SuperRaid.Sys
import SuperRaid.Volatile
import SuperRaid.Footer
import SuperRaid.Machine
import SuperRaid.Recovery
import SuperRaid.PowerPrepare
import SuperRaid.StorageSpec
import SuperRaid.CopySpec
import SuperRaid.VerifySpec
import SuperRaid.Apps
import SuperRaid.SealSpec
import SuperRaid.MirrorSpec
import SuperRaid.PrepareSpec
import SuperRaid.PrepareSafety
import SuperRaid.Sha256
import SuperRaid.MountSpec
import SuperRaid.ReleaseSpec
import SuperRaid.RecoverSpec
import SuperRaid.RecoveryOrder
import SuperRaid.BootImages
import SuperRaid.BootSpec
import SuperRaid.Convergence
import SuperRaid.FooterCanonical
import SuperRaid.BinaryPoly
import SuperRaid.CrcRegister
import SuperRaid.Crc32c
import SuperRaid.FooterBurst
import SuperRaid.SealVerify
import SuperRaid.WaitSpec
import SuperRaid.Rollback
import SuperRaid.Lifetime
import SuperRaid.Transfer
import SuperRaid.TransferSpec
import SuperRaid.TransferCopy
import SuperRaid.TransferRange
import SuperRaid.TransferStorage
import SuperRaid.DirectIo
import SuperRaid.MountReport
import SuperRaid.SysctlRestore
import SuperRaid.Interposer
import SuperRaid.InterposerGate
import SuperRaid.Exclusion
import SuperRaid.ExclusionProgram
import SuperRaid.AppRelease
import SuperRaid.FatGateSplice
import SuperRaid.HashRingReturn
import SuperRaid.HashRingStuck
import SuperRaid.LinkTable
import SuperRaid.SysReturns
import SuperRaid.FatEntry
import SuperRaid.FatEntryCodec
import SuperRaid.FatTable
import SuperRaid.FatTableSpec
import SuperRaid.FatFree
import SuperRaid.FatAlloc
import SuperRaid.FatAccount
import SuperRaid.FatTrim
import SuperRaid.FatCache
import SuperRaid.FatCacheSpec
import SuperRaid.FatMount
import SuperRaid.FatFiles
import SuperRaid.FatFilesSpec
import SuperRaid.FatTime
import SuperRaid.FatInode
import SuperRaid.FatInodeSpec
import SuperRaid.FatDir
import SuperRaid.FatDirItems
import SuperRaid.FatDirFiles
import SuperRaid.FatDirSpec
import SuperRaid.FatWritebackTable
