import ZZ9K.Abi.Entry
import ZZ9K.Archive.ArchiveSpared
import ZZ9K.Archive.BatchArena
import ZZ9K.Archive.BatchChunks
import ZZ9K.Archive.BufferRuns
import ZZ9K.Archive.Directories
import ZZ9K.Archive.FeedExact
import ZZ9K.Archive.LhaAgree
import ZZ9K.Archive.LhaCommand
import ZZ9K.Archive.LhaMember
import ZZ9K.Archive.Lzma2Fallback
import ZZ9K.Archive.OutputPaths
import ZZ9K.Archive.SevenZipDigests
import ZZ9K.Archive.StagedReplace
import ZZ9K.Archive.TarAgree
import ZZ9K.Archive.TarCount
import ZZ9K.Archive.TarCountAgree
import ZZ9K.Archive.TarExtract
import ZZ9K.Archive.TarRecords
import ZZ9K.Archive.ZipAgree
import ZZ9K.Audio.ControlLine
import ZZ9K.Audio.Mp3Clients
import ZZ9K.Audio.Mp3Delivery
import ZZ9K.Audio.Mp3Firmware
import ZZ9K.Audio.Mp3PlayRuns
import ZZ9K.Audio.Mp3Sound
import ZZ9K.Audio.PlayClockRuns
import ZZ9K.Audio.PresentationClock
import ZZ9K.Audio.RingLease
import ZZ9K.Audio.Session
import ZZ9K.Crypto.Aes
import ZZ9K.Crypto.AesGcm
import ZZ9K.Crypto.AesGcmRuns
import ZZ9K.Crypto.BigNumAliasing
import ZZ9K.Crypto.BigNumExact
import ZZ9K.Crypto.BigNumMod
import ZZ9K.Crypto.ChaChaPoly
import ZZ9K.Crypto.EcdsaSig
import ZZ9K.Crypto.Offload
import ZZ9K.Crypto.OffloadRuns
import ZZ9K.Crypto.P256
import ZZ9K.Crypto.P256Agreement
import ZZ9K.Crypto.P256Api
import ZZ9K.Crypto.Rsa
import ZZ9K.Crypto.RsaSigning
import ZZ9K.Framework.Ask
import ZZ9K.Framework.Attempt
import ZZ9K.Framework.CopyRange
import ZZ9K.Framework.CountedLoop
import ZZ9K.Framework.Fifo
import ZZ9K.Framework.IntrusiveList
import ZZ9K.Framework.OpenAddressing
import ZZ9K.Framework.Resumption
import ZZ9K.Framework.Scan
import ZZ9K.Framework.SignedOverflow
import ZZ9K.Host.AllocShared
import ZZ9K.Host.AllocSurface
import ZZ9K.Host.BatchOwners
import ZZ9K.Host.Mailbox
import ZZ9K.Host.Ring
import ZZ9K.Host.RingRefinement
import ZZ9K.M68k.RunnerFaults
import ZZ9K.M68k.RunnerRuns
import ZZ9K.Math.AspectFit
import ZZ9K.Math.Interpolation
import ZZ9K.Math.Multiples
import ZZ9K.Math.Window
import ZZ9K.Media.PcmRing
import ZZ9K.Media.Probe
import ZZ9K.Media.SharedBytes
import ZZ9K.Mpega.Board
import ZZ9K.Mpega.BoardLife
import ZZ9K.Mpega.DecodeProgress
import ZZ9K.Mpega.DecodeRuns
import ZZ9K.Mpega.Metadata
import ZZ9K.Mpega.MetadataProbe
import ZZ9K.Mpega.MetadataSplit
import ZZ9K.Mpega.Seek
import ZZ9K.Picture.Dimensions
import ZZ9K.Picture.DimensionsExact
import ZZ9K.Picture.FeedRuns
import ZZ9K.Picture.FeedTarget
import ZZ9K.Picture.Lut8Lossless
import ZZ9K.Provider.AeadNonces
import ZZ9K.Provider.AeadRecords
import ZZ9K.Provider.Rsa
import ZZ9K.Provider.RsaVerdict
import ZZ9K.Runtime.Bookkeeping
import ZZ9K.Runtime.Delivery
import ZZ9K.Runtime.Replies
import ZZ9K.Surface.DamageClips
import ZZ9K.Surface.ImageGeometry
import ZZ9K.Surface.PngFeed
import ZZ9K.Surface.PngFeedRuns
import ZZ9K.Surface.RectFits
