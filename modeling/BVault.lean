import BVault.Lib.Runs
import BVault.Jobs.Queue
import BVault.Jobs.Rows
import BVault.Jobs.Dedup
import BVault.Jobs.Terminal
import BVault.Jobs.Attempts
import BVault.Jobs.Lease
import BVault.Gateway.BatchProgress
import BVault.Store.Artifact
import BVault.Store.Whole
import BVault.Lib.Directory
import BVault.Store.FromTemp
import BVault.Store.Moved
import BVault.Hash.Content
import BVault.Transfer.Target
import BVault.Transfer.Reconcile
import BVault.Transfer.Reexport
import BVault.Core.DeviceSql
import BVault.Lib.Interner
import BVault.Core.Page
import BVault.Core.PageRows
import BVault.Core.Track
import BVault.Core.Rows
import BVault.Lib.Loops
import BVault.Core.Pdb
import BVault.Core.PdbPages
import BVault.Core.PdbTables
import BVault.Core.PdbBuild
import BVault.Core.PdbLayout
import BVault.Core.PdbReturns
import BVault.Core.PdbHistory
import BVault.Core.PdbRows
import BVault.Core.PdbDictionary
import BVault.Lib.Records
import BVault.Core.Anlz
import BVault.Core.AnlzDat
import BVault.Core.AnlzCues
import BVault.Core.Validate
import BVault.Core.ValidateBuilt
import BVault.Core.PdbCounts
import BVault.Transfer.AnyTarget
import BVault.Transfer.Cleanup
import BVault.Transfer.Killed
import BVault.Transfer.Verify
import BVault.Meta.Model
import BVault.Meta.Own
import BVault.Meta.OwnSteps
import BVault.Gateway.Audio
import BVault.Gateway.Ingest
import BVault.Gateway.IngestFaithful
import BVault.Meta.Tenancy
import BVault.Gateway.Confinement
import BVault.Worker.Analyze
import BVault.Worker.Order
import BVault.Worker.Turns
import BVault.Worker.Succeeded
import BVault.Core.TrackPaths
import BVault.Export.Build
import BVault.Lib.Folders
import BVault.Export.Serve
import BVault.Export.Links
import BVault.Analysis.Waveform
import BVault.Core.PdbPlaylists
import BVault.Export.Library
import BVault.Export.SameLists
import BVault.Export.TreePaths
import BVault.Export.Served
import BVault.Lib.Percent
import BVault.Transfer.Url
import BVault.Gateway.Located
import BVault.Export.Addressed
import BVault.Core.Overview
import BVault.Lib.Walks
import BVault.Worker.BundlePaths
import BVault.Analysis.Tempo
import BVault.Analysis.TempoRange
import BVault.Export.Quantised
import BVault.Core.PageSpace
import BVault.Lib.NextFit
import BVault.Core.PdbWrapping
import BVault.Core.PdbLimits
import BVault.Cli.Ingest
import BVault.Cli.Monitor
import BVault.Core.RowFormats
import BVault.Core.TrackRow
import BVault.Meta.SamePlaylist
import BVault.Core.Diff
import BVault.Export.ConstantTempo
import BVault.Core.ValidateIndexed
import BVault.Core.RowCounts
import BVault.Transfer.SafDirs
import BVault.Lib.NamedTrees
import BVault.Transfer.Saf
import BVault.Gateway.Library
import BVault.Lib.Like
import BVault.Gateway.Search
import BVault.Cli.Playlist
import BVault.Cli.Download
import BVault.Analysis.Decode
import BVault.Core.Xml
import BVault.Core.XmlLocation
import BVault.Core.XmlReadBack
import BVault.Core.XmlTree
import BVault.Lib.Ramps
import BVault.Core.SeekIndex
import BVault.Lib.XmlLines
import BVault.Lib.XmlWritten
import BVault.Lib.Xml
import BVault.Lib.Calendar
import BVault.Export.Today
import BVault.Lib.LastWrite
import BVault.Auth.Secrets
import BVault.Auth.Accounts
import BVault.Auth.Handlers
import BVault.Auth.Sessions
import BVault.Auth.Login
import BVault.Auth.Cookies
import BVault.Ytdlp.Service
import BVault.Ytdlp.Statements
import BVault.Ytdlp.Pods
import BVault.Ytdlp.Finished
import BVault.Ytdlp.Ownership
import BVault.Ytdlp.Resume
import BVault.Lib.TreeWalk
import BVault.Cli.LocalIngest
import BVault.Lib.PrimaryKey
import BVault.Export.LibraryTables
import BVault.Lib.Publication
import BVault.Export.StagingRoot
import BVault.Export.Isolation
import BVault.Export.Lifetime
import BVault.Worker.Health
import BVault.Transfer.Fresh
import BVault.Export.Stick
